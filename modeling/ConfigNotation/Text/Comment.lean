import ConfigNotation.Text.Lines
import ConfigNotation.Token.Error

/-!
Comments are blanked out before a text is cut into tokens. A `#` comment runs to
the end of its line, an apostrophe opens a comment that runs to the next one.
Every character of a comment becomes one space and line feeds stay, so that
lines and columns are those of the text as it was written.
-/

namespace ConfigNotation.Text

/-- What the next character belongs to. A comment between apostrophes keeps the
offset at which it was opened. -/
inductive CommentMode where
  | code
  | string (escaped : Bool)
  | line
  | block (opening : Nat)
  deriving DecidableEq, Repr

/-- Whether an apostrophe opens or closes a comment: not behind a backslash. -/
def isCommentQuote (previous : Option Char) (c : Char) : Bool :=
  c == '\'' && previous != some '\\'

def blanked (c : Char) : Char := if c = '\n' then '\n' else ' '

/-- Reads one character: the mode behind it and what is written in its place.
`offset` is the size of what was written so far. -/
def CommentMode.step (mode : CommentMode) (previous : Option Char) (offset : Nat) (c : Char) :
    CommentMode × Char :=
  match mode with
  | .code =>
      if c = '"' then (.string false, c)
      else if c = '#' then (.line, ' ')
      else if isCommentQuote previous c then (.block offset, ' ')
      else (.code, c)
  | .string escaped =>
      if escaped then (.string false, c)
      else if c = '\\' then (.string true, c)
      else if c = '"' then (.code, c)
      else (mode, c)
  | .line => if c = '\n' then (.code, c) else (.line, ' ')
  | .block _ => if isCommentQuote previous c then (.code, ' ') else (mode, blanked c)

/-- Blanks a text from a mode on; also gives the mode at the end of the text. -/
def blankFrom (mode : CommentMode) (previous : Option Char) (offset : Nat) :
    List Char → List Char × CommentMode
  | [] => ([], mode)
  | c :: rest =>
      let (next, written) := mode.step previous offset c
      let (blankedRest, last) := blankFrom next (some c) (offset + written.utf8Size) rest
      (written :: blankedRest, last)

/-- Normalizes line endings and blanks comments. The only failure is a comment
between apostrophes that is still open at the end. -/
def stripComments (text : List Char) : Except LexError (List Char) :=
  match blankFrom .code none 0 (normalizeNewlines text) with
  | (written, .block opening) =>
      .error ⟨.unterminatedBlockComment, .ofOffsets opening (opening + 1),
        (Position.ofOffset written opening).recorded⟩
  | (written, _) => .ok written

end ConfigNotation.Text
