import ConfigNotation.Proofs.Source.Faults

/-!
Streams hold what their receiver took before it refused a piece. What a receiver would do with
later pieces does not matter, as it is not asked about them: the text is always the beginning of
the text that is put together in memory, and a stream that can be finished has all of it.
-/

namespace ConfigNotation

variable {σ : Type}

def Piece.joined (pieces : List Piece) : String := String.join (pieces.map written)

theorem Piece.joined_cons (piece : Piece) (pieces : List Piece) :
    joined (piece :: pieces) = piece.written ++ joined pieces := by
  rw [joined, List.map_cons, String.join_cons, joined]

theorem Piece.joined_append (first second : List Piece) :
    joined (first ++ second) = joined first ++ joined second := by
  rw [joined, List.map_append, String.join_append, joined, joined]

theorem Piece.joined_isPrefix {first second : List Piece} (h : first <+: second) :
    (joined first).toList <+: (joined second).toList := by
  obtain ⟨rest, rfl⟩ := h
  rw [joined_append, String.toList_append]
  exact List.prefix_append _ _

/-- What a receiver takes of pieces before it refuses one. -/
def Receiver.taken (port : Receiver σ) : σ → List Piece → List Piece
  | _, [] => []
  | state, piece :: rest =>
      if (port.write state piece).1 then piece :: port.taken (port.write state piece).2 rest else []

theorem Receiver.taken_isPrefix (port : Receiver σ) (state : σ) (pieces : List Piece) :
    port.taken state pieces <+: pieces := by
  induction pieces generalizing state with
  | nil => exact List.prefix_rfl
  | cons piece rest ih =>
      rw [taken]
      split
      · exact List.cons_prefix_cons.2 ⟨rfl, ih _⟩
      · exact List.nil_prefix

namespace Stream

variable (port : Receiver σ)

theorem offerAll_closed (receiver : σ) (pieces : List Piece) :
    offerAll port ⟨receiver, false⟩ pieces = ⟨receiver, false⟩ := by
  induction pieces with
  | nil => rfl
  | cons piece rest ih => exact ih

theorem offerAll_cons (receiver : σ) (piece : Piece) (rest : List Piece) :
    offerAll port (opened receiver) (piece :: rest) =
      if (port.write receiver piece).1 then offerAll port (opened (port.write receiver piece).2) rest
      else ⟨(port.write receiver piece).2, false⟩ := by
  have hoffer : offerAll port (opened receiver) (piece :: rest) =
      offerAll port ⟨(port.write receiver piece).2, (port.write receiver piece).1⟩ rest := rfl
  rw [hoffer]
  cases htaken : (port.write receiver piece).1 with
  | true => rfl
  | false => exact offerAll_closed port _ rest

/-- The receiver holds what it took, and the stream is open as long as that is
everything. -/
theorem offerAll_opened (start : σ) (pieces : List Piece) :
    port.held (offerAll port (opened start) pieces).receiver =
        port.held start ++ Piece.joined (port.taken start pieces) ∧
      ((offerAll port (opened start) pieces).isOpen = true ↔ port.taken start pieces = pieces) := by
  induction pieces generalizing start with
  | nil => exact ⟨String.append_empty.symm, iff_of_true rfl rfl⟩
  | cons piece rest ih =>
      obtain ⟨hheld, hopen⟩ := ih (port.write start piece).2
      have hwrite := port.held_write start piece
      rw [offerAll_cons, Receiver.taken]
      cases htaken : (port.write start piece).1 with
      | true =>
          simp only [htaken, if_true] at hwrite ⊢
          refine ⟨?_, hopen.trans (by rw [List.cons.injEq]; exact (and_iff_right rfl).symm)⟩
          rw [hheld, hwrite, Piece.joined_cons, String.append_assoc]
      | false =>
          simp only [htaken, Bool.false_eq_true, if_false] at hwrite ⊢
          exact ⟨hwrite.trans String.append_empty.symm, iff_of_false nofun nofun⟩

theorem foldl_take (stream : Stream σ) (outputs : List Output) :
    outputs.foldl (take port) stream = stream.offerAll port (outputs.flatMap Output.pieces) := by
  rw [offerAll, List.foldl_flatMap]
  rfl

theorem finish?_eq_some_iff {stream : Stream σ} {receiver : σ} :
    stream.finish? = some receiver ↔ stream.isOpen = true ∧ receiver = stream.receiver := by
  rw [finish?]
  cases stream.isOpen <;> simp [eq_comm]

end Stream

theorem Receiver.taken_unlimited (held : String) (pieces : List Piece) :
    (byText Sink.unlimited).taken held pieces = pieces := by
  induction pieces generalizing held with
  | nil => rfl
  | cons piece rest ih => exact congrArg (piece :: ·) (ih _)

/-- In memory everything is kept. -/
theorem Sink.text_unlimited (outputs : List Output) :
    (outputs.foldl (take unlimited) empty).text = Piece.joined (outputs.flatMap Output.pieces) := by
  have hheld := (Stream.offerAll_opened (.byText unlimited) "" (outputs.flatMap Output.pieces)).1
  rw [Receiver.taken_unlimited, ← Stream.foldl_take] at hheld
  exact hheld.trans String.empty_append

namespace Source

theorem joined_declarationRequests (indent : Nat) :
    Piece.joined ((declarationRequests indent).flatMap Output.pieces) =
      String.join (declarations indent) := by
  rw [declarationRequests, declarations]
  split <;> rfl

/-- The requests in which a module is written make up its text. -/
theorem source_eq_joined (value : Value) (replace? : Option (Value → Value)) (indent : Nat) :
    value.source replace? indent = (exportPart (leafWriter replace? indent) indent value).map
      fun part => Piece.joined ((part.requests indent).flatMap Output.pieces) := by
  rw [Value.source, Value.sourcePieces]
  cases exportPart (leafWriter replace? indent) indent value with
  | error fault => rfl
  | ok part =>
      refine congrArg Except.ok (?_ : _ = Piece.joined ((part.requests indent).flatMap _))
      rw [Part.requests, List.flatMap_append, Piece.joined_append, String.join_append]
      congr 1
      cases part.usesEmptyArray with
      | true => exact (joined_declarationRequests indent).symm
      | false => rfl

end Source

/-- A stream to any receiver holds what was written to it before the first piece
that the receiver refused, however the receiver decides and whatever it would
take later. So its text is a beginning of the text that the same requests put
together in memory. It can be finished exactly if nothing was refused, and the
texts are the same then; in particular a module that is written to a stream
which can be finished has the text of its value. -/
theorem stream_holds_what_was_taken (port : Receiver σ) (start : σ) :
    (∀ outputs : List Output,
      let pieces := outputs.flatMap Output.pieces
      let stream := outputs.foldl (Stream.take port) (.opened start)
      let memory := outputs.foldl (Sink.take Sink.unlimited) .empty
      port.held stream.receiver = port.held start ++ Piece.joined (port.taken start pieces) ∧
      (Piece.joined (port.taken start pieces)).toList <+: memory.text.toList ∧
      (∀ finished, stream.finish? = some finished ↔
        port.taken start pieces = pieces ∧ finished = stream.receiver) ∧
      ∀ finished, stream.finish? = some finished →
        port.held finished = port.held start ++ memory.text) ∧
    ∀ (value : Value) (replace? : Option (Value → Value)) (indent : Nat),
      let (outcome, stream) := (value.emit (Stream.take port) replace? indent).run (.opened start)
      outcome = (value.source replace? indent).map (fun _ => ()) ∧
      ∀ text finished, value.source replace? indent = .ok text → stream.finish? = some finished →
        port.held finished = port.held start ++ text := by
  have hfinished (outputs : List Output) (finished : σ)
      (hfinish : (outputs.foldl (Stream.take port) (.opened start)).finish? = some finished) :
      port.held finished =
        port.held start ++ Piece.joined (outputs.flatMap Output.pieces) := by
    obtain ⟨hheld, hopen⟩ := Stream.offerAll_opened port start (outputs.flatMap Output.pieces)
    obtain ⟨hopened, rfl⟩ := Stream.finish?_eq_some_iff.1 hfinish
    rw [Stream.foldl_take] at hopened ⊢
    rw [hheld, hopen.1 hopened]
  constructor
  · intro outputs pieces stream memory
    have hheld := Stream.offerAll_opened port start pieces
    rw [← Stream.foldl_take] at hheld
    refine ⟨hheld.1, ?_, fun finished => ?_, fun finished hfinish => ?_⟩
    · rw [Sink.text_unlimited]
      exact Piece.joined_isPrefix (port.taken_isPrefix start pieces)
    · rw [Stream.finish?_eq_some_iff, hheld.2]
    · rw [hfinished outputs finished hfinish, Sink.text_unlimited]
  · intro value replace? indent
    rw [Value.run_emit, Source.source_eq_joined]
    cases Source.exportPart (Source.leafWriter replace? indent) indent value with
    | error fault => exact ⟨rfl, nofun⟩
    | ok part =>
        refine ⟨rfl, fun text finished htext hfinish => ?_⟩
        obtain rfl := Except.ok.inj htext
        exact hfinished (part.requests indent) finished hfinish

/-- A sink with room for one more character is offered none after it has refused
two. -/
theorem stream_holds_what_was_taken_gap :
    let outputs := [Output.text "ab", .text "cd", .char 'e']
    let sink := outputs.foldl (Sink.take (Sink.upTo 3)) .empty
    sink.text = "ab" ∧ sink.finish? = none ∧
      (outputs.foldl (Sink.take Sink.unlimited) .empty).text = "abcde" ∧
      (Sink.take (Sink.upTo 3) (.opened sink.text) (.char 'e')).text = "abe" := by
  intro outputs sink
  obtain ⟨hheld, -, hfinish, -⟩ :=
    (stream_holds_what_was_taken (.byText (Sink.upTo 3)) "").1 outputs
  refine ⟨hheld, ?_, by decide, by decide⟩
  rw [Option.eq_none_iff_forall_ne_some]
  intro finished hsome
  exact absurd ((hfinish finished).1 hsome).1 (by decide)

end ConfigNotation
