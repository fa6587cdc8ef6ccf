import Mathlib.Data.List.Induction
import ConfigNotation.Diagnostic
import ConfigNotation.Proofs.Text.Comment

/-!
Places between the characters of a text. The position behind the text before a place, the
line table at the offset of the place, and the excerpt with a mark below the place agree;
and blanking comments moves no place.
-/

namespace ConfigNotation

open Text

namespace Text

/-- A text ends where a line starts: it is empty, or a line feed is its last
character. -/
def EndsLine (text : List Char) : Prop := text = [] ∨ ∃ front, text = front ++ ['\n']

/-- What stands before a place: whole lines, and a part of the line that the
place is in. -/
theorem exists_lines_before (text : List Char) :
    ∃ lines part, text = lines ++ part ∧ EndsLine lines ∧ '\n' ∉ part := by
  induction text using List.reverseRecOn with
  | nil => exact ⟨[], [], rfl, .inl rfl, by simp⟩
  | append_singleton text c ih =>
      by_cases hend : c = '\n'
      · subst hend
        exact ⟨text ++ ['\n'], [], by simp, .inr ⟨text, rfl⟩, by simp⟩
      · obtain ⟨lines, part, rfl, hlines, hpart⟩ := ih
        refine ⟨lines, part ++ [c], by simp, hlines, ?_⟩
        simp [hpart, Ne.symm hend]

theorem offsetsAfterNewlines_append (offset : Nat) (first second : List Char) :
    offsetsAfterNewlines offset (first ++ second) =
      offsetsAfterNewlines offset first ++
        offsetsAfterNewlines (offset + byteSize first) second := by
  induction first generalizing offset with
  | nil => rfl
  | cons c rest ih =>
      rw [List.cons_append, offsetsAfterNewlines, offsetsAfterNewlines, byteSize_cons,
        ← Nat.add_assoc]
      split
      · next hend =>
        subst hend
        rw [ih, List.cons_append]
        rfl
      · exact ih _

theorem offsetsAfterNewlines_of_not_mem {text : List Char} (h : '\n' ∉ text) (offset : Nat) :
    offsetsAfterNewlines offset text = [] := by
  induction text generalizing offset with
  | nil => rfl
  | cons c rest ih =>
      rw [List.mem_cons, not_or] at h
      rw [offsetsAfterNewlines, if_neg (Ne.symm h.1), ih h.2]

theorem offsetsAfterNewlines_bounds {text : List Char} {offset found : Nat}
    (h : found ∈ offsetsAfterNewlines offset text) :
    offset < found ∧ found ≤ offset + byteSize text := by
  induction text generalizing offset with
  | nil => cases h
  | cons c rest ih =>
      have hsome := c.utf8Size_pos
      rw [offsetsAfterNewlines] at h
      rw [byteSize_cons]
      split at h
      · rcases List.mem_cons.1 h with rfl | h
        · omega
        · have hrest := ih h
          omega
      · have hrest := ih h
        omega

theorem slice?_append (before part after : List Char) :
    slice? (byteSize before) (byteSize (before ++ part)) (before ++ (part ++ after)) =
      some part := by
  rw [slice?, byteSize_append, if_pos (Nat.le_add_right _ _), dropBytes?_append,
    Nat.add_sub_cancel_left]
  exact takeBytes?_append part after

/-- Whole lines start at one more place than they have line feeds; the last of
these places is behind them. -/
theorem getLast?_starts {lines : List Char} (h : EndsLine lines) :
    (0 :: offsetsAfterNewlines 0 lines).getLast? = some (byteSize lines) := by
  rcases h with rfl | ⟨front, rfl⟩
  · rfl
  · rw [offsetsAfterNewlines_append, Nat.zero_add, byteSize_append]
    change ((0 :: offsetsAfterNewlines 0 front) ++ [byteSize front + 1]).getLast? = _
    exact List.getLast?_concat ..

end Text

namespace Position

theorem after_of_not_mem {part : List Char} (h : '\n' ∉ part) (position : Position) :
    position.after part = ⟨position.line, position.column + part.length⟩ := by
  induction part generalizing position with
  | nil => rfl
  | cons c rest ih =>
      rw [List.mem_cons, not_or] at h
      rw [after_cons, ih h.2, advance, if_neg (Ne.symm h.1), List.length_cons]
      simp only [Nat.add_assoc, Nat.add_comm 1]

theorem line_after (position : Position) (offset : Nat) (text : List Char) :
    (position.after text).line = position.line + (offsetsAfterNewlines offset text).length := by
  induction text generalizing position offset with
  | nil => rfl
  | cons c rest ih =>
      rw [after_cons, offsetsAfterNewlines, advance]
      split
      · rw [ih _ (offset + 1), List.length_cons]
        simp only [Nat.add_assoc, Nat.add_comm 1]
      · exact ih _ (offset + c.utf8Size)

/-- The position behind whole lines and a part of the next one. -/
theorem after_lines {lines part : List Char} (hlines : EndsLine lines) (hpart : '\n' ∉ part) :
    start.after (lines ++ part) =
      ⟨(0 :: offsetsAfterNewlines 0 lines).length, part.length + 1⟩ := by
  have hline := line_after start 0 lines
  have hcolumn : (start.after lines).column = 1 := by
    rcases hlines with rfl | ⟨front, rfl⟩
    · rfl
    · rw [after_append]
      rfl
  rw [after_append, after_of_not_mem hpart, hline, hcolumn, List.length_cons, Nat.add_comm 1,
    Nat.add_comm start.line]
  rfl

/-- From the start of a text on, each character adds at most one to the line or
the column. -/
theorem start_after_le (text : List Char) :
    (start.after text).line ≤ text.length + 1 ∧ (start.after text).column ≤ text.length + 1 := by
  induction text using List.reverseRecOn with
  | nil => exact ⟨Nat.le_refl _, Nat.le_refl _⟩
  | append_singleton text c ih =>
      obtain ⟨hline, hcolumn⟩ := ih
      rw [after_append, after_cons, after_nil, advance, List.length_append, List.length_singleton]
      split
      · exact ⟨Nat.succ_le_succ hline, Nat.le_add_left 1 _⟩
      · exact ⟨Nat.le_succ_of_le hline, Nat.succ_le_succ hcolumn⟩

/-- A place is recorded as it is if fewer characters stand before it than a
counter of 32 bits can tell apart from the place behind them. -/
theorem recorded_start_after {text : List Char} (h : text.length < Span.limit) :
    (start.after text).recorded = start.after text := by
  obtain ⟨hline, hcolumn⟩ := start_after_le text
  exact recorded_eq_self (Nat.le_trans hline h) (Nat.le_trans hcolumn h)

end Position

namespace LineTable

/-- The starts of lines at a place: those before it, of which the last is the
start of its line, and those behind it. -/
theorem starts_ofText (lines part rest : List Char) (hpart : '\n' ∉ part) :
    (ofText (lines ++ (part ++ rest))).starts =
      (0 :: offsetsAfterNewlines 0 lines) ++
        offsetsAfterNewlines (byteSize (lines ++ part)) rest := by
  rw [ofText, offsetsAfterNewlines_append, offsetsAfterNewlines_append,
    offsetsAfterNewlines_of_not_mem hpart, byteSize_append, Nat.zero_add]
  rfl

variable {lines part : List Char} (hlines : EndsLine lines) (hpart : '\n' ∉ part)

include hlines hpart

theorem lineStart?_ofText (rest : List Char) :
    (ofText (lines ++ (part ++ rest))).lineStart? (0 :: offsetsAfterNewlines 0 lines).length =
      some (byteSize lines) := by
  have hlast := getLast?_starts hlines
  rw [List.getLast?_eq_getElem?] at hlast
  rw [List.length_cons, lineStart?, starts_ofText lines part rest hpart,
    List.getElem?_append_left (by simp)]
  exact hlast

/-- The line table and the count of lines and columns agree at every place of a
text. -/
theorem positionAt_ofText (rest : List Char) :
    (ofText (lines ++ (part ++ rest))).positionAt (lines ++ (part ++ rest))
        (byteSize (lines ++ part)) =
      Position.start.after (lines ++ part) := by
  have hline : (ofText (lines ++ (part ++ rest))).lineAt (byteSize (lines ++ part)) =
      (0 :: offsetsAfterNewlines 0 lines).length := by
    have hbefore : ∀ found ∈ 0 :: offsetsAfterNewlines 0 lines,
        decide (found ≤ byteSize (lines ++ part)) = true := by
      rw [List.forall_mem_cons]
      refine ⟨by simp, fun found hfound => ?_⟩
      have hbound := (offsetsAfterNewlines_bounds hfound).2
      rw [decide_eq_true_eq, byteSize_append]
      omega
    have hbehind : (offsetsAfterNewlines (byteSize (lines ++ part)) rest).takeWhile
        (· ≤ byteSize (lines ++ part)) = [] := by
      cases hfound : offsetsAfterNewlines (byteSize (lines ++ part)) rest with
      | nil => rfl
      | cons first others =>
          have hfirst := offsetsAfterNewlines_bounds (hfound ▸ List.mem_cons_self)
          exact List.takeWhile_cons_of_neg (by simpa using hfirst.1)
    rw [lineAt, starts_ofText lines part rest hpart, List.takeWhile_append_of_pos hbefore, hbehind,
      List.append_nil]
  have hinside : min (byteSize (lines ++ part)) (byteSize (lines ++ (part ++ rest))) =
      byteSize (lines ++ part) := by
    rw [← List.append_assoc, byteSize_append (lines ++ part)]
    omega
  rw [positionAt, hline, lineStart?_ofText hlines hpart, hinside, Position.after_lines hlines hpart]
  dsimp only [Option.getD_some]
  rw [slice?_append]

/-- The line that a place is in, as the line table cuts it out. -/
theorem lineText?_ofText {right others : List Char} (hright : '\n' ∉ right)
    (hothers : others = [] ∨ ∃ more, others = '\n' :: more) :
    (ofText (lines ++ (part ++ (right ++ others)))).lineText?
        (lines ++ (part ++ (right ++ others))) (0 :: offsetsAfterNewlines 0 lines).length =
      some (part ++ right) := by
  have hnext : (ofText (lines ++ (part ++ (right ++ others)))).lineStart?
      ((0 :: offsetsAfterNewlines 0 lines).length + 1) =
        (offsetsAfterNewlines (byteSize (lines ++ (part ++ right))) others).head? := by
    rw [lineStart?, starts_ofText _ _ _ hpart, List.getElem?_append_right (Nat.le_refl _),
      Nat.sub_self, offsetsAfterNewlines_append, offsetsAfterNewlines_of_not_mem hright,
      List.nil_append, ← byteSize_append, List.append_assoc, List.head?_eq_getElem?]
  rw [lineText?, lineStart?_ofText hlines hpart, hnext]
  rcases hothers with rfl | ⟨more, rfl⟩
  · change slice? (byteSize lines) (byteSize (lines ++ (part ++ (right ++ [])))) _ = _
    rw [List.append_nil, ← slice?_append lines (part ++ right) [], List.append_nil]
  · rw [offsetsAfterNewlines, if_pos rfl]
    change slice? (byteSize lines) (byteSize (lines ++ (part ++ right)) + 1 - 1) _ = _
    rw [Nat.add_sub_cancel, ← List.append_assoc part, slice?_append]

end LineTable

/-- A place in a text: what stands before it and behind it. -/
theorem Position.ofOffset_byteSize (before after : List Char) :
    ofOffset (before ++ after) (byteSize before) = start.after before := by
  obtain ⟨lines, part, rfl, hlines, hpart⟩ := exists_lines_before before
  rw [List.append_assoc]
  exact LineTable.positionAt_ofText hlines hpart after

namespace Text

theorem CommentMode.step_lineFeed (mode : CommentMode) (previous : Option Char) (offset : Nat)
    (c : Char) :
    (mode.step previous offset c).2 = '\n' ↔ c = '\n' := by
  have hspace : (' ' = '\n') ↔ False := by decide
  cases mode with
  | code =>
      unfold step isCommentQuote
      dsimp only
      split
      · exact Iff.rfl
      · split
        · next hhash => simp [hhash]
        · split
          · next hmark =>
            have hc : c = '\'' := by simpa using (Bool.and_eq_true_iff.1 hmark).1
            simp [hc]
          · exact Iff.rfl
  | string escaped =>
      unfold step
      dsimp only
      split
      · exact Iff.rfl
      · split
        · exact Iff.rfl
        · split <;> exact Iff.rfl
  | line =>
      unfold step
      dsimp only
      split
      · exact Iff.rfl
      · next hend => simp [hend]
  | block opening =>
      unfold step blanked isCommentQuote
      dsimp only
      split
      · next hmark =>
        have hc : c = '\'' := by simpa using (Bool.and_eq_true_iff.1 hmark).1
        simp [hc]
      · dsimp only
        split
        · next hend => simp [hend]
        · next hend => simp [hend]

/-- A place has the same position in a text with its comments and without
them. -/
theorem after_take_blankFrom (mode : CommentMode) (previous : Option Char) (offset : Nat)
    (text : List Char) (place : Nat) (position : Position) :
    position.after ((blankFrom mode previous offset text).1.take place) =
      position.after (text.take place) := by
  induction text generalizing mode previous offset place position with
  | nil => rfl
  | cons c rest ih =>
      cases place with
      | zero => rfl
      | succ place =>
          rw [blankFrom_cons, List.take_succ_cons, List.take_succ_cons, Position.after_cons,
            Position.after_cons, ih]
          have hsame : position.advance (mode.step previous offset c).2 = position.advance c := by
            simp only [Position.advance, CommentMode.step_lineFeed]
          rw [hsame]

end Text

end ConfigNotation
