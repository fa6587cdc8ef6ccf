/-!
Where things stand in a text: spans of bytes, and positions as line and column.
-/

namespace ConfigNotation

/-- A range of bytes of the text that tokens are cut from; `stop` lies
outside. -/
structure Span where
  start : Nat
  stop : Nat
  deriving DecidableEq, Repr, Inhabited

namespace Span

/-- The largest offset that a span records. -/
def limit : Nat := 0xFFFFFFFF

/-- The span of a node that no text belongs to. -/
def empty : Span := ⟨0, 0⟩

/-- The span between two offsets; offsets past the limit are recorded as the
limit. -/
def ofOffsets (start stop : Nat) : Span := ⟨min start limit, min stop limit⟩

/-- The distance from start to stop on a counter of 32 bits. For a span that
runs forward this is the number of bytes that it covers. -/
def size (span : Span) : Nat := (span.stop + 0x100000000 - span.start) % 0x100000000

def isEmpty (span : Span) : Bool := span.start == span.stop

/-- The smallest span that covers both. -/
def merge (first second : Span) : Span :=
  ⟨min first.start second.start, max first.stop second.stop⟩

def text (span : Span) : String := toString span.start ++ ".." ++ toString span.stop

end Span

/-- A line and a column, both counted from one; columns count characters. -/
structure Position where
  line : Nat
  column : Nat
  deriving DecidableEq, Repr, Inhabited

namespace Position

def start : Position := ⟨1, 1⟩

/-- A position as a failure keeps it. Lines and columns past the limit of 32
bits are recorded as the limit. -/
def recorded (position : Position) : Position :=
  ⟨min position.line Span.limit, min position.column Span.limit⟩

theorem recorded_eq_self {position : Position} (hline : position.line ≤ Span.limit)
    (hcolumn : position.column ≤ Span.limit) :
    position.recorded = position := by
  rw [recorded, Nat.min_eq_left hline, Nat.min_eq_left hcolumn]

def phrase (position : Position) : String :=
  s!" at line {position.line}, column {position.column}"

def advance (position : Position) (c : Char) : Position :=
  if c = '\n' then ⟨position.line + 1, 1⟩ else ⟨position.line, position.column + 1⟩

def after (position : Position) (text : List Char) : Position := text.foldl advance position

@[simp] theorem after_nil (position : Position) : position.after [] = position := rfl

@[simp] theorem after_cons (position : Position) (c : Char) (rest : List Char) :
    position.after (c :: rest) = (position.advance c).after rest := rfl

@[simp] theorem after_append (position : Position) (first second : List Char) :
    position.after (first ++ second) = (position.after first).after second := by
  simp [after, List.foldl_append]

end Position

end ConfigNotation
