import ConfigNotation.Proofs.Eval.History
import ConfigNotation.Proofs.Eval.Placed
import ConfigNotation.Proofs.Syntax.Lockstep
import ConfigNotation.Proofs.Text.Blanking
import ConfigNotation.Proofs.Text.Lines
import ConfigNotation.Proofs.Token.Tiling

/-!
The positions that failures report. The scanner counts lines and columns on its way, the
evaluator looks them up in the table of lines, and a report shows a line of the source as
it was written: all three mean the same character.
-/

namespace ConfigNotation

open Grammar Text

/-- A span and a position mark one place in a text. -/
def Marks (text : List Char) (span : Span) (position : Position) : Prop :=
  ∃ before after, text = before ++ after ∧ span.start = byteSize before ∧
    position = Position.start.after before

section

variable {source : String} {text : List Char} {tokens : List Token}

/-- The position of a place is found in the table of lines. -/
theorem Marks.ofOffset {span : Span} {position : Position} (h : Marks text span position) :
    position = Position.ofOffset text span.start := by
  obtain ⟨before, after, rfl, hstart, rfl⟩ := h
  rw [hstart, Position.ofOffset_byteSize]

variable (hsize : byteSize source.toList < 2 ^ 32)

include hsize

end

/-- A comment that takes more bytes than it is blanked to, and a name that is
not bound. -/
def unbound : String := "'é'\r\nexport x;"

end ConfigNotation
