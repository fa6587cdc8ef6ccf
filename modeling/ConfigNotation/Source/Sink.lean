/-!
Where text is written to. A receiver takes or refuses each piece as a whole, by whatever it goes
by, and nothing is offered to it after the first piece that it refuses.
-/

namespace ConfigNotation

inductive Piece where
  | text (text : String)
  | char (c : Char)
  deriving DecidableEq, Repr

def Piece.written : Piece → String
  | text written => written
  | char c => c.toString

inductive Output where
  | text (text : String)
  | char (c : Char)
  | newline
  /-- Spaces for a level of nesting. -/
  | indent (level width : Nat)
  deriving DecidableEq, Repr

def Output.pieces : Output → List Piece
  | text written => [.text written]
  | char c => [.char c]
  | newline => [.char '\n']
  | indent level width => List.replicate (level * width) (.char ' ')

structure Receiver (σ : Type) where
  /-- The text that has been written to it. -/
  held : σ → String
  /-- Whether it takes a piece, and what state it is in then. -/
  write : σ → Piece → Bool × σ
  /-- A piece is taken or refused as a whole. -/
  held_write : ∀ state piece, held (write state piece).2 =
    if (write state piece).1 then held state ++ piece.written else held state

/-- A receiver that goes by the text that it holds: `accepts` says whether it
takes a text when it already holds one. -/
def Receiver.byText (accepts : String → String → Bool) : Receiver String where
  held := id
  write held piece :=
    if accepts held piece.written then (true, held ++ piece.written) else (false, held)
  held_write held piece := by cases accepts held piece.written <;> rfl

/-- A receiver that is written to, and whether it has refused nothing so far. -/
structure Stream (σ : Type) where
  receiver : σ
  isOpen : Bool
  deriving DecidableEq, Repr

namespace Stream

variable {σ : Type}

def opened (receiver : σ) : Stream σ := ⟨receiver, true⟩

def offer (port : Receiver σ) (stream : Stream σ) (piece : Piece) : Stream σ :=
  if stream.isOpen then
    let (taken, receiver) := port.write stream.receiver piece
    ⟨receiver, taken⟩
  else stream

def offerAll (port : Receiver σ) (stream : Stream σ) (pieces : List Piece) : Stream σ :=
  pieces.foldl (offer port) stream

def take (port : Receiver σ) (stream : Stream σ) (output : Output) : Stream σ :=
  stream.offerAll port output.pieces

/-- The receiver, if it has refused nothing. -/
def finish? (stream : Stream σ) : Option σ := if stream.isOpen then some stream.receiver else none

end Stream

abbrev Sink := Stream String

namespace Sink

def empty : Sink := .opened ""

def text (sink : Sink) : String := sink.receiver

/-- Offers pieces to a text that takes what `accepts` allows. -/
def offerAll (accepts : String → String → Bool) (sink : Sink) (pieces : List Piece) : Sink :=
  Stream.offerAll (.byText accepts) sink pieces

def take (accepts : String → String → Bool) (sink : Sink) (output : Output) : Sink :=
  Stream.take (.byText accepts) sink output

def unlimited (_held _piece : String) : Bool := true

def upTo (capacity : Nat) (held piece : String) : Bool :=
  held.utf8ByteSize + piece.utf8ByteSize ≤ capacity

end Sink

end ConfigNotation
