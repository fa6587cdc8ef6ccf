import ConfigNotation.Text.Slice
import ConfigNotation.Text.Span

/-!
Line endings, and the table that turns byte offsets into lines and columns.
-/

namespace ConfigNotation.Text

/-- Makes every line end in one line feed: a carriage return is dropped before a
line feed and replaced by one elsewhere. -/
def normalizeNewlines : List Char → List Char
  | [] => []
  | '\r' :: '\n' :: rest => '\n' :: normalizeNewlines rest
  | c :: rest => (if c = '\r' then '\n' else c) :: normalizeNewlines rest

/-- The offsets behind the line feeds of a text that starts at an offset. -/
def offsetsAfterNewlines (offset : Nat) : List Char → List Nat
  | [] => []
  | c :: rest =>
      if c = '\n' then (offset + 1) :: offsetsAfterNewlines (offset + 1) rest
      else offsetsAfterNewlines (offset + c.utf8Size) rest

end ConfigNotation.Text

namespace ConfigNotation

open Text

/-- The byte offsets at which the lines of a text start. -/
structure LineTable where
  starts : List Nat
  deriving DecidableEq, Repr

namespace LineTable

def ofText (text : List Char) : LineTable := ⟨0 :: offsetsAfterNewlines 0 text⟩

def lineCount (table : LineTable) : Nat := table.starts.length

/-- The line that an offset lies in: the number of lines that start no later. -/
def lineAt (table : LineTable) (offset : Nat) : Nat :=
  (table.starts.takeWhile (· ≤ offset)).length

/-- The offset at which a line starts, for lines counted from one. -/
def lineStart? (table : LineTable) : Nat → Option Nat
  | 0 => none
  | line + 1 => table.starts[line]?

/-- The line and column of an offset in a text. An offset past the end stands at
the end; inside a character the bytes since the start of the line count. -/
def positionAt (table : LineTable) (text : List Char) (offset : Nat) : Position :=
  let line := table.lineAt offset
  let start := (table.lineStart? line).getD 0
  let stop := min offset (byteSize text)
  let width := match slice? start stop text with
    | some before => before.length
    | none => stop - start
  ⟨line, width + 1⟩

/-- A line of a text without its line feed. -/
def lineText? (table : LineTable) (text : List Char) (line : Nat) : Option (List Char) := do
  let start ← table.lineStart? line
  let stop := match table.lineStart? (line + 1) with
    | some next => next - 1
    | none => byteSize text
  slice? start stop text

end LineTable

def Position.ofOffset (text : List Char) (offset : Nat) : Position :=
  (LineTable.ofText text).positionAt text offset

end ConfigNotation
