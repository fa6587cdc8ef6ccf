import ConfigNotation.Proofs.Number.Numeral
import ConfigNotation.Proofs.Text.Comment
import ConfigNotation.Proofs.Token.Match
import ConfigNotation.Token.Lexer

/-!
Texts that are spelled word by word. If the longest match at every word is that word,
the text is cut into just these words.
-/

namespace ConfigNotation

open Text Pattern

/-- A word of a text: blanks, and the text of a token behind them. -/
structure Word where
  gap : List Char
  kind : TokenKind
  text : List Char
  deriving DecidableEq, Repr

/-- The part of a token that does not depend on its place. -/
abbrev Tag := TokenKind × String

def Token.tag (token : Token) : Tag := (token.kind, token.text)

namespace Word

def chars (word : Word) : List Char := word.gap ++ word.text

def tag (word : Word) : Tag := (word.kind, String.ofList word.text)

def spell (words : List Word) : List Char := words.flatMap chars

@[simp] theorem spell_nil : spell [] = [] := rfl

@[simp] theorem spell_cons (word : Word) (rest : List Word) :
    spell (word :: rest) = word.gap ++ (word.text ++ spell rest) := by
  simp [spell, chars]

@[simp] theorem spell_append (first second : List Word) :
    spell (first ++ second) = spell first ++ spell second := List.flatMap_append

end Word

open Word

/-- No word and no path goes on at the start of a text. -/
def Stops (text : List Char) : Prop := ∀ c ∈ text.head?, isWordChar c = false ∧ c ≠ '.'

/-- The character before a text, if there is one, belongs to no word. -/
def IsClear (previous : Option Char) : Prop := ∀ c ∈ previous, isWordChar c = false

instance : DecidablePred IsClear
  | none => .isTrue nofun
  | some c => decidable_of_iff (isWordChar c = false) (by simp [IsClear])

theorem stops_cons {c : Char} (rest : List Char) (h : isWordChar c = false ∧ c ≠ '.') :
    Stops (c :: rest) := by
  rintro d hd
  cases hd
  exact h

/-- A text that is a token of a kind wherever `fits` holds for the character
before it and the text behind it. -/
structure IsToken (fits : Option Char → List Char → Prop) (kind : TokenKind)
    (text : List Char) : Prop where
  starts : ∃ c rest, text = c :: rest ∧ isBlank c = false
  longest : ∀ previous rest, fits previous rest →
    longestMatch previous (text ++ rest) = some (kind, text.length)

/-- A token that is left as it is where comments are blanked. -/
structure IsLexeme (fits : Option Char → List Char → Prop) (kind : TokenKind)
    (text : List Char) : Prop extends IsToken fits kind text where
  verbatim : IsVerbatim text

/-- A place where every token fits. -/
def Apart (previous : Option Char) (rest : List Char) : Prop := IsClear previous ∧ Stops rest

theorem IsToken.mono {more less : Option Char → List Char → Prop} {kind : TokenKind}
    {text : List Char} (h : IsToken more kind text)
    (hfits : ∀ previous rest, less previous rest → more previous rest) :
    IsToken less kind text :=
  ⟨h.starts, fun previous rest hless => h.longest previous rest (hfits _ _ hless)⟩

theorem IsLexeme.mono {more less : Option Char → List Char → Prop} {kind : TokenKind}
    {text : List Char} (h : IsLexeme more kind text)
    (hfits : ∀ previous rest, less previous rest → more previous rest) :
    IsLexeme less kind text :=
  ⟨h.toIsToken.mono hfits, h.verbatim⟩

/-- A mark is a token wherever it stands. -/
abbrev IsMark : TokenKind → List Char → Prop := IsLexeme fun _ _ => True

/-- Words that are cut as they are spelled. `previous` is the character before
them. If it is asked for, each of them is left as it is where comments are
blanked. -/
inductive Spelled (verbatim : Prop) : Option Char → List Word → Prop where
  | nil {previous : Option Char} : Spelled verbatim previous []
  | token {fits : Option Char → List Char → Prop} {previous : Option Char} {word : Word}
      {rest : List Word} (hgap : ∀ c ∈ word.gap, c = ' ' ∨ c = '\n')
      (htoken : IsToken fits word.kind word.text) (hverbatim : verbatim → IsVerbatim word.text)
      (hfits : fits (lastOr previous word.gap) (spell rest))
      (hrest : Spelled verbatim (lastOr none word.text) rest) :
      Spelled verbatim previous (word :: rest)

/-- A word in front of spelled words is spelled, if it is cut off there and what
follows fits to it. -/
theorem Spelled.cons {verbatim : Prop} {fits : Option Char → List Char → Prop}
    {previous : Option Char} {word : Word} {rest : List Word}
    (hgap : ∀ c ∈ word.gap, c = ' ' ∨ c = '\n') (hlexeme : IsLexeme fits word.kind word.text)
    (hfits : fits (lastOr previous word.gap) (spell rest))
    (hrest : Spelled verbatim (lastOr none word.text) rest) :
    Spelled verbatim previous (word :: rest) :=
  .token hgap hlexeme.toIsToken (fun _ => hlexeme.verbatim) hfits hrest

/-- A mark in front of words that may follow any character. -/
theorem Spelled.mark {verbatim : Prop} {word : Word} {rest : List Word}
    (hgap : ∀ c ∈ word.gap, c = ' ' ∨ c = '\n') (hmark : IsMark word.kind word.text)
    (hrest : ∀ previous, Spelled verbatim previous rest) (previous : Option Char) :
    Spelled verbatim previous (word :: rest) :=
  .cons hgap hmark trivial (hrest _)

section

variable {verbatim : Prop} {previous : Option Char} {words : List Word}

theorem isVerbatim_gap {gap : List Char} (h : ∀ c ∈ gap, c = ' ' ∨ c = '\n') :
    IsVerbatim gap := by
  apply IsVerbatim.of_codeChars
  intro c hmember
  rcases h c hmember with rfl | rfl <;> decide

/-- Words that are all verbatim spell a text in which nothing is blanked. -/
theorem Spelled.isVerbatim (h : Spelled verbatim previous words) (hverbatim : verbatim) :
    IsVerbatim (spell words) := by
  induction h with
  | nil => exact .of_codeChars (by simp)
  | token hgap _ hword _ _ ih =>
      rw [spell_cons]
      exact (isVerbatim_gap hgap).append ((hword hverbatim).append ih)

/-- Blanks before a text only move it on. -/
theorem tokensFrom_gap {gap : List Char} (h : ∀ c ∈ gap, c = ' ' ∨ c = '\n') (offset : Nat)
    (position : Position) (previous : Option Char) (rest : List Char) :
    tokensFrom offset position previous (gap ++ rest) =
      tokensFrom (offset + byteSize gap) (position.after gap) (lastOr previous gap) rest := by
  induction gap generalizing offset position previous with
  | nil => simp [lastOr]
  | cons c gap ih =>
      rw [List.forall_mem_cons] at h
      have hblank : isBlank c = true := by rcases h.1 with rfl | rfl <;> decide
      have hlast : lastOr (some c) gap = lastOr previous (c :: gap) := by
        cases gap <;> simp [lastOr, List.getLast?_cons]
      rw [List.cons_append, tokensFrom, if_pos hblank, ih h.2, hlast, byteSize_cons,
        Position.after_cons, Nat.add_assoc]

/-- A token that fits is cut off, and what stands behind it is cut next. -/
theorem IsToken.tokensFrom {fits : Option Char → List Char → Prop} {kind : TokenKind}
    {text rest : List Char} (h : IsToken fits kind text) (hfits : fits previous rest)
    (offset : Nat) (position : Position) :
    ConfigNotation.tokensFrom offset position previous (text ++ rest) =
      (ConfigNotation.tokensFrom (offset + byteSize text) (position.after text) (lastOr none text)
        rest).map (⟨kind, String.ofList text, .ofOffsets offset (offset + byteSize text),
          position⟩ :: ·) := by
  obtain ⟨c, tail, htext, hblank⟩ := h.starts
  have hmatch := h.longest _ _ hfits
  simp only [htext, List.cons_append, List.length_cons] at hmatch
  rw [htext, List.cons_append, ConfigNotation.tokensFrom, hblank, if_neg Bool.false_ne_true, hmatch]
  simp only [Nat.add_sub_cancel, List.take_left, List.drop_left, lastOr, Option.or_none]
  rfl

/-- Words that are spelled are the tokens of their text, with the end behind
them. -/
theorem Spelled.tokensFrom (h : Spelled verbatim previous words) (offset : Nat)
    (position : Position) :
    ∃ tokens, ConfigNotation.tokensFrom offset position previous (spell words) = .ok tokens ∧
      tokens.map Token.tag = words.map Word.tag ++ [(.endOfInput, "")] := by
  induction h generalizing offset position with
  | nil => exact ⟨_, by rw [spell_nil, ConfigNotation.tokensFrom], rfl⟩
  | @token fits previous word rest hgap htoken _ hfits _ ih =>
      obtain ⟨tokens, htokens, htags⟩ := ih (offset + byteSize word.gap + byteSize word.text)
        ((position.after word.gap).after word.text)
      rw [spell_cons, tokensFrom_gap hgap, htoken.tokensFrom hfits, htokens]
      refine ⟨_, rfl, ?_⟩
      rw [List.map_cons, htags]
      simp [Token.tag, Word.tag]

/-- If nothing in the text of the words is taken for a comment, they are its
tokens. -/
theorem Spelled.lex_of_kept (h : Spelled verbatim none words)
    (hkept : stripComments (spell words) = .ok (spell words)) :
    ∃ lexed, lex (String.ofList (spell words)) = .ok lexed ∧
      lexed.tokens.map Token.tag = words.map Word.tag ++ [(.endOfInput, "")] := by
  obtain ⟨tokens, htokens, htags⟩ := h.tokensFrom 0 .start
  refine ⟨⟨String.ofList (spell words), tokens⟩, ?_, htags⟩
  unfold ConfigNotation.lex
  rw [String.toList_ofList, hkept]
  simp only [bind, Except.bind, htokens]
  rfl

/-- A spelled text is cut into the tags of its words and the end of the input.
Neither spans nor positions are claimed, which the words do not have. -/
theorem Spelled.lex (h : Spelled True none words) :
    ∃ lexed, lex (String.ofList (spell words)) = .ok lexed ∧
      lexed.tokens.map Token.tag = words.map Word.tag ++ [(.endOfInput, "")] :=
  h.lex_of_kept (stripComments_of_isVerbatim (h.isVerbatim trivial))

end

/-- A mark is found by evaluation, whatever follows it. -/
theorem isMark_of_listed {kind : TokenKind} {c : Char} {tail : List Char}
    (hblank : isBlank c = false) (hcode : ∀ d ∈ c :: tail, IsCodeChar d)
    (hlongest : ∀ previous rest, longestMatch previous (c :: tail ++ rest) =
      some (kind, tail.length + 1)) :
    IsMark kind (c :: tail) :=
  ⟨⟨⟨c, tail, rfl, hblank⟩, fun previous rest _ => hlongest previous rest⟩, .of_codeChars hcode⟩

def marks : List (TokenKind × List Char) :=
  [(.leftBracket, ['[']), (.rightBracket, [']']), (.leftParen, ['(']), (.rightParen, [')']),
    (.semicolon, [';']), (.arrow, ['=', '>']), (.spread, ['.', '.', '.']),
    (.numericKey, ['@', '*'])]

/-- The marks of the list are cut off wherever they stand, since no pattern
matches a longer text that starts with one of them. -/
theorem isMark_of_mem {kind : TokenKind} {text : List Char} (h : (kind, text) ∈ marks) :
    IsMark kind text := by
  simp only [marks, List.mem_cons, Prod.mk.injEq, List.not_mem_nil, or_false] at h
  rcases h with h | h | h | h | h | h | h | h
  all_goals
    obtain ⟨rfl, rfl⟩ := h
    apply isMark_of_listed rfl (by decide)
    intro previous rest
    rw [longestMatch, all_eq]
    rfl

theorem isIdentifier_spec {name : List Char} (h : isIdentifier name = true) :
    ∃ c rest, name = c :: rest ∧ isIdentStart c = true ∧ ∀ d ∈ rest, isWordChar d = true := by
  cases name with
  | nil => cases h
  | cons c rest =>
      rw [isIdentifier, Bool.and_eq_true, List.all_eq_true] at h
      exact ⟨c, rest, rfl, h⟩

theorem isIdentifier_cons {c : Char} {rest : List Char} (hstart : isIdentStart c = true)
    (hrest : ∀ d ∈ rest, isWordChar d = true) : isIdentifier (c :: rest) = true := by
  rw [isIdentifier, hstart, List.all_eq_true.2 hrest]
  rfl

theorem isWordChar_of_isIdentStart {c : Char} (h : isIdentStart c = true) :
    isWordChar c = true := by
  simp only [isIdentStart, isWordChar, Char.isAlphanum, Bool.or_eq_true] at h ⊢
  exact h.imp_left .inl

theorem isWordChar_of_isDigit {c : Char} (h : c.isDigit = true) : isWordChar c = true := by
  simp [isWordChar, Char.isAlphanum, h]

/-- No name starts with a digit. -/
theorem not_isDigit_of_isIdentStart {c : Char} (h : isIdentStart c = true) :
    ¬c.isDigit = true := by
  have hall : ∀ c ∈ ['0', '1', '2', '3', '4', '5', '6', '7', '8', '9'], ¬isIdentStart c = true := by
    decide
  exact fun hdigit => hall c (isDigit_cases hdigit) h

theorem isCodeChar_of_isWordChar {c : Char} (h : isWordChar c = true) : IsCodeChar c := by
  refine ⟨?_, ?_, ?_, ?_⟩ <;> (rintro rfl; revert h; decide)

theorem isVerbatim_of_isIdentifier {name : List Char} (h : isIdentifier name = true) :
    IsVerbatim name := by
  obtain ⟨c, rest, rfl, hstart, hrest⟩ := isIdentifier_spec h
  apply IsVerbatim.of_codeChars
  rw [List.forall_mem_cons]
  exact ⟨isCodeChar_of_isWordChar (isWordChar_of_isIdentStart hstart),
    fun d hmember => isCodeChar_of_isWordChar (hrest d hmember)⟩

theorem isBlank_of_isWordChar {c : Char} (h : isWordChar c = true) : isBlank c = false := by
  have hblanks : ∀ n ∈ blanks, isWordChar (Char.ofNat n) = false := by decide
  rw [isBlank, List.contains_eq_mem, decide_eq_false_iff_not]
  intro hmember
  have hword := hblanks _ hmember
  rw [Char.ofNat_toNat, h] at hword
  cases hword

section

variable {name rest : List Char} (hname : isIdentifier name = true) (hstops : Stops rest)

include hname hstops

/-- A name is matched up to its end, if no character of a word follows. -/
theorem ident?_append : ident? (name ++ rest) = some name.length := by
  obtain ⟨c, tail, rfl, hstart, htail⟩ := isIdentifier_spec hname
  have hrun : (tail ++ rest).takeWhile isWordChar = tail :=
    takeWhile_append_stop htail fun c hc => (hstops c hc).1
  rw [List.cons_append, ident?, if_pos hstart, hrun, List.length_cons, Nat.add_comm]

omit hname in
theorem pathTail_append (htail : ∀ c ∈ name, isWordChar c = true) :
    pathTail false (name ++ rest) = name.length := by
  have hskip {c : Char} (text : List Char) (hdot : c ≠ '.') :
      pathTail false (c :: text) = if isWordChar c then pathTail false text + 1 else 0 := by
    rw [pathTail.eq_def]
    split
    · next heq => cases heq
    · next heq => cases heq; exact absurd rfl hdot
    · next heq => cases heq; rfl
  induction name with
  | nil =>
      cases rest with
      | nil => rfl
      | cons c rest =>
          obtain ⟨hword, hdot⟩ := hstops c rfl
          rw [List.nil_append, hskip rest hdot, hword, if_neg nofun, List.length_nil]
  | cons c tail ih =>
      rw [List.forall_mem_cons] at htail
      have hdot : c ≠ '.' := by rintro rfl; exact absurd htail.1 (by decide)
      rw [List.cons_append, hskip _ hdot, htail.1, if_pos rfl, ih htail.2, List.length_cons]

/-- A name by itself is no path. -/
theorem path?_append : path? (name ++ rest) = none := by
  have hident := ident?_append hname hstops
  obtain ⟨c, tail, rfl, hstart, htail⟩ := isIdentifier_spec hname
  rw [List.cons_append] at hident ⊢
  rw [path?, pathTail_append hstops htail, hident, hstart, List.length_cons]
  simp [Nat.add_comm]

end

/-- The patterns that cover every name, if no pattern before them does. -/
def namePatterns : List Pattern := [⟨.path, fun _ => path?⟩, ⟨.ident, fun _ => ident?⟩]

/-- Of the patterns that cover a name, the fold keeps the name, unless the match
before it covers as much already. -/
theorem foldl_namePatterns {previous : Option Char} {name rest : List Char}
    (best : Option (TokenKind × Nat)) (hname : isIdentifier name = true) (hstops : Stops rest) :
    namePatterns.foldl (prefer previous (name ++ rest)) best =
      if matchSize best < name.length then some (.ident, name.length) else best := by
  simp [namePatterns, prefer, path?_append hname hstops, ident?_append hname hstops]

theorem word?_append {previous : Option Char} {word rest : List Char} (hprevious : IsClear previous)
    (hbehind : ∀ c ∈ rest.head?, isWordChar c = false) :
    word? word previous (word ++ rest) = some word.length := by
  have hbefore : previous.all (!isWordChar ·) = true := by
    cases previous with
    | none => rfl
    | some c => simp [hprevious c rfl]
  have hafter : rest.head?.all (!isWordChar ·) = true := by
    cases rest with
    | nil => rfl
    | cons c rest => simp [hbehind c rfl]
  have hstarts : word.isPrefixOf (word ++ rest) = true :=
    List.isPrefixOf_iff_prefix.2 (List.prefix_append word rest)
  rw [word?, List.drop_left, hstarts, hbefore, hafter]
  rfl

/-- A word that is the longest match where it fits is one token and is left as
it is by the blanking of comments. -/
theorem isLexeme_of_isIdentifier {fits : Option Char → List Char → Prop} {kind : TokenKind}
    {word : List Char} (hname : isIdentifier word = true)
    (hlongest : ∀ previous rest, fits previous rest →
      longestMatch previous (word ++ rest) = some (kind, word.length)) :
    IsLexeme fits kind word where
  starts := by
    obtain ⟨c, rest, rfl, hstart, _⟩ := isIdentifier_spec hname
    exact ⟨c, rest, rfl, isBlank_of_isWordChar (isWordChar_of_isIdentStart hstart)⟩
  verbatim := isVerbatim_of_isIdentifier hname
  longest := hlongest

theorem isLexeme_name {name : List Char} (hname : isIdentifier name = true)
    (hlongest : ∀ previous rest, longestMatch previous (name ++ rest) =
      namePatterns.foldl (prefer previous (name ++ rest)) none) :
    IsLexeme Apart .ident name := by
  apply isLexeme_of_isIdentifier hname
  intro previous rest hfits
  have hlength : 0 < name.length := by
    obtain ⟨c, tail, rfl, _⟩ := isIdentifier_spec hname
    simp
  rw [hlongest, foldl_namePatterns none hname hfits.2]
  exact if_pos hlength

/-- A word of the language is cut off as its own kind: it covers as much as a
name does, and stands before it in the list. -/
theorem isLexeme_keyword {kind : TokenKind} {word : List Char} (hname : isIdentifier word = true)
    (hlongest : ∀ previous rest, longestMatch previous (word ++ rest) =
      (⟨kind, word? word⟩ :: namePatterns).foldl (prefer previous (word ++ rest)) none) :
    IsLexeme Apart kind word := by
  apply isLexeme_of_isIdentifier hname
  intro previous rest hfits
  have hlength : 0 < word.length := by
    obtain ⟨c, tail, rfl, _⟩ := isIdentifier_spec hname
    simp
  have hfirst : prefer previous (word ++ rest) none ⟨kind, word? word⟩ =
      some (kind, word.length) := by
    simp [prefer, word?_append hfits.1 fun c hc => (hfits.2 c hc).1, matchSize, hlength]
  rw [hlongest, List.foldl_cons, hfirst, foldl_namePatterns _ hname hfits.2]
  simp [matchSize]

def keywords : List (TokenKind × List Char) :=
  [(.null, ['N', 'u', 'l', 'l']), (.undefined, ['U', 'n', 'd', 'e', 'f', 'i', 'n', 'e', 'd']),
    (.boolean, ['T', 'r', 'u', 'e']), (.boolean, ['F', 'a', 'l', 's', 'e']),
    (.classWord, ['c', 'l', 'a', 's', 's']), (.useWord, ['u', 's', 'e']), (.asWord, ['a', 's']),
    (.exportWord, ['e', 'x', 'p', 'o', 'r', 't'])]

theorem isLexeme_of_mem {kind : TokenKind} {word : List Char} (h : (kind, word) ∈ keywords) :
    IsLexeme Apart kind word := by
  simp only [keywords, List.mem_cons, Prod.mk.injEq, List.not_mem_nil, or_false] at h
  rcases h with h | h | h | h | h | h | h | h
  all_goals
    obtain ⟨rfl, rfl⟩ := h
    apply isLexeme_keyword rfl
    intro previous rest
    rw [longestMatch, all_eq]
    rfl

/-- The key of an entry. -/
theorem isLexeme_assocKey {name : List Char} (hname : isIdentifier name = true) :
    IsLexeme (fun _ rest => Stops rest) .assocKey ('@' :: name) where
  starts := ⟨'@', name, rfl, by decide⟩
  verbatim := IsVerbatim.append (.of_codeChars (by decide : ∀ c ∈ ['@'], IsCodeChar c))
    (isVerbatim_of_isIdentifier hname)
  longest previous rest hstops := by
    have hlongest : longestMatch previous ('@' :: (name ++ rest)) =
        [(⟨.assocKey, fun _ => assocKey?⟩ : Pattern),
          ⟨.numericKey, fun _ => fixed? ['@', '*']⟩].foldl
          (prefer previous ('@' :: (name ++ rest))) none := by
      rw [longestMatch, all_eq]
      rfl
    have hkey : assocKey? ('@' :: (name ++ rest)) = some (name.length + 1) := by
      rw [assocKey?, ident?_append hname hstops]
      rfl
    have hstar : fixed? ['@', '*'] ('@' :: (name ++ rest)) = none := by
      obtain ⟨c, tail, rfl, hstart, _⟩ := isIdentifier_spec hname
      have hne : c ≠ '*' := by rintro rfl; exact absurd hstart (by decide)
      simp [fixed?, List.isPrefixOf, Ne.symm hne]
    rw [List.cons_append, hlongest]
    simp [prefer, hkey, hstar, matchSize]

end ConfigNotation
