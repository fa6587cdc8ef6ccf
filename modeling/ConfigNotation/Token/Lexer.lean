import ConfigNotation.Text.CharClass
import ConfigNotation.Text.Comment
import ConfigNotation.Token.Pattern

/-!
Cutting a text into tokens: at each character that is no blank the longest match
of all patterns becomes the next token.
-/

namespace ConfigNotation

open Text

/-- A token with its text and the place of its first character. The text is kept
as it was cut off and lines and columns have no bound, which is what spans and
counters of 32 bits tell of every text of less than four gibibytes. -/
structure Token where
  kind : TokenKind
  text : String
  span : Span
  position : Position
  deriving DecidableEq, Repr, Inhabited

namespace Token

def endAt (offset : Nat) (position : Position) : Token :=
  ⟨.endOfInput, "", .ofOffsets offset offset, position⟩

/-- A token whose text is what its span covers in a source, which is nothing if
the span does not lie on boundaries of the source. -/
def ofSpan (source : List Char) (kind : TokenKind) (span : Span) (position : Position) : Token :=
  ⟨kind, String.ofList ((slice? span.start span.stop source).getD []), span, position⟩

end Token

/-- The longest match at a byte offset of a text, with its size in bytes. An
offset past the end stands at the end; inside a character nothing matches. -/
def Pattern.longestMatchAt (text : List Char) (offset : Nat) : Option (TokenKind × Nat) := do
  let cut := min offset (byteSize text)
  let before ← takeBytes? cut text
  let rest ← dropBytes? cut text
  let (kind, size) ← longestMatch before.getLast? rest
  return (kind, byteSize (rest.take size))

def LexFault.ofUncovered (c : Char) : LexFault :=
  if c = '"' then .unterminatedString else .unexpectedCharacter c

/-- The tokens of a text without comments. The text stands at `offset` and
`position` of the whole and `previous` is the character before it. -/
def tokensFrom (offset : Nat) (position : Position) (previous : Option Char) :
    List Char → Except LexError (List Token)
  | [] => .ok [.endAt offset position]
  | c :: rest =>
      if isBlank c then tokensFrom (offset + c.utf8Size) (position.advance c) (some c) rest
      else
        match Pattern.longestMatch previous (c :: rest) with
        | none =>
            .error ⟨.ofUncovered c, .ofOffsets offset (offset + c.utf8Size), position⟩
        | some (kind, size) => do
            let lexeme := c :: rest.take (size - 1)
            let stop := offset + byteSize lexeme
            let following ←
              tokensFrom stop (position.after lexeme) lexeme.getLast? (rest.drop (size - 1))
            return ⟨kind, String.ofList lexeme, .ofOffsets offset stop, position⟩ :: following
termination_by text => text.length
decreasing_by all_goals simp; try omega

/-- A text that was cut into tokens: the text without comments, which the spans
refer to, and its tokens, of which the last is the end. -/
structure Lexed where
  text : String
  tokens : List Token
  deriving DecidableEq, Repr

/-- Blanks the comments of a source and cuts it into tokens. -/
def lex (source : String) : Except LexError Lexed := do
  let text ← stripComments source.toList
  let tokens ← tokensFrom 0 .start none text
  return ⟨String.ofList text, tokens⟩

end ConfigNotation
