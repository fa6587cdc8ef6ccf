import ConfigNotation.Proofs.Bytes.Access
import ConfigNotation.Proofs.Text.Lines
import ConfigNotation.Proofs.Text.Split

/-!
The table of the lines of a text is exact. Its starts are the offsets behind the bytes of line
feeds, in increasing order, whatever finds an offset among them; the lines that it cuts out are
those between the line feeds; and the position of a place counts the line feeds before it and
the characters since the last of them, so no two places share one.
-/

namespace ConfigNotation

open Text

namespace Text

theorem length_offsetsAfterNewlines (offset : Nat) (text : List Char) :
    (offsetsAfterNewlines offset text).length = text.count '\n' := by
  induction text generalizing offset with
  | nil => rfl
  | cons c rest ih =>
      rw [offsetsAfterNewlines, List.count_cons]
      split
      · next hend => simp [hend, ih]
      · next hother => simp [hother, ih]

theorem pairwise_offsetsAfterNewlines (offset : Nat) (text : List Char) :
    (offsetsAfterNewlines offset text).Pairwise (· < ·) := by
  induction text generalizing offset with
  | nil => exact .nil
  | cons c rest ih =>
      rw [offsetsAfterNewlines]
      split
      · exact .cons (fun found hfound => (offsetsAfterNewlines_bounds hfound).1) (ih _)
      · exact ih _

/-- A byte of a character is a line feed only if the character is one. -/
theorem eq_lineFeed_of_mem_encodeChar {c : Char} (h : 10 ∈ Utf8.encodeChar c) : c = '\n' := by
  have hbyte : '\n' ∈ (Utf8.encodeChar c).map Bytes.charOf := List.mem_map.2 ⟨10, h, rfl⟩
  rcases Bytes.bytes_of_char c with ⟨-, hbytes⟩ | ⟨-, hwide⟩
  · rw [hbytes] at hbyte
    exact (List.mem_singleton.1 hbyte).symm
  · exact absurd (by decide) (hwide _ hbyte)

/-- The offsets behind line feeds, found among the bytes of a text. -/
theorem offsetsAfterNewlines_eq_findIdxs (offset : Nat) (text : List Char) :
    offsetsAfterNewlines offset text =
      ((Utf8.encode text).findIdxs (· == 10) offset).map (· + 1) := by
  induction text generalizing offset with
  | nil => rfl
  | cons c rest ih =>
      rw [Utf8.encode_cons, List.findIdxs_append, List.map_append, Bytes.length_encodeChar, ← ih,
        offsetsAfterNewlines]
      split
      · next hend =>
        subst hend
        rfl
      · next hother =>
        have hnone : (Utf8.encodeChar c).findIdxs (· == 10) offset = [] := by
          rw [List.findIdxs_eq_nil_iff]
          intro byte hbyte
          rw [beq_eq_false_iff_ne]
          rintro rfl
          exact hother (eq_lineFeed_of_mem_encodeChar hbyte)
        rw [hnone]
        rfl

end Text

namespace Position

/-- The position behind a text counts its line feeds, and its characters since
the last one. -/
theorem start_after (text : List Char) :
    start.after text =
      ⟨1 + text.count '\n', 1 + (text.reverse.takeWhile (· != '\n')).length⟩ := by
  induction text using List.reverseRecOn with
  | nil => rfl
  | append_singleton text c ih =>
      rw [after_append, ih, after_cons, after_nil, advance, List.count_append,
        List.count_singleton, List.reverse_concat, List.takeWhile_cons]
      by_cases hend : c = '\n'
      · simp [hend, Nat.add_assoc]
      · simp [hend, Nat.add_comm]

/-- A text moves a position to a later line, or to a later column of the same
line. -/
theorem eq_nil_of_after_eq {position : Position} {text : List Char}
    (h : position.after text = position) : text = [] := by
  have hline := line_after position 0 text
  rw [h, length_offsetsAfterNewlines] at hline
  have hpart : '\n' ∉ text := List.count_eq_zero.1 (by omega)
  have hcolumn : position.column = position.column + text.length :=
    congrArg Position.column (h.symm.trans (after_of_not_mem hpart position))
  exact List.length_eq_zero_iff.1 (by omega)

/-- No two places of a text share a position. -/
theorem eq_of_after_eq {before other rest others : List Char}
    (htext : before ++ rest = other ++ others) (h : start.after before = start.after other) :
    before = other := by
  rcases List.append_eq_append_iff.1 htext with ⟨part, rfl, -⟩ | ⟨part, rfl, -⟩
  · rw [after_append] at h
    rw [eq_nil_of_after_eq h.symm, List.append_nil]
  · rw [after_append] at h
    rw [eq_nil_of_after_eq h, List.append_nil]

end Position

namespace LineTable

theorem pairwise_starts (text : List Char) : (ofText text).starts.Pairwise (· < ·) :=
  .cons (fun found hfound => by have := (offsetsAfterNewlines_bounds hfound).1; omega)
    (pairwise_offsetsAfterNewlines 0 text)

theorem lineCount_ofText (text : List Char) :
    (ofText text).lineCount = text.count '\n' + 1 := by
  rw [lineCount, ofText, List.length_cons, length_offsetsAfterNewlines]

/-- A line that starts nowhere has no text. -/
theorem lineText?_of_lineCount_lt {table : LineTable} {line : Nat} (h : table.lineCount < line)
    (text : List Char) : table.lineText? text line = none := by
  obtain ⟨place, rfl⟩ := Nat.exists_eq_add_of_lt h
  have hnone : table.lineStart? (table.lineCount + place + 1) = none :=
    List.getElem?_eq_none (Nat.le_add_right _ _)
  rw [lineText?, hnone]
  rfl

/-- The lines behind whole lines of a text, as the line table cuts them out. -/
theorem lineText?_pieces {before : List Char} (hbefore : EndsLine before)
    {pieces : List (List Char)} (hsome : pieces ≠ []) (hpieces : ∀ piece ∈ pieces, '\n' ∉ piece)
    (place : Nat) :
    (ofText (before ++ joinWith ['\n'] pieces)).lineText? (before ++ joinWith ['\n'] pieces)
      (before.count '\n' + 1 + place) = pieces[place]? := by
  induction pieces generalizing before place with
  | nil => exact absurd rfl hsome
  | cons piece rest ih =>
      rw [List.forall_mem_cons] at hpieces
      have hnumber : (0 :: offsetsAfterNewlines 0 before).length = before.count '\n' + 1 := by
        rw [List.length_cons, length_offsetsAfterNewlines]
      -- The first piece is the line at the place itself; to the others it is a whole line before.
      have hfirst := @lineText?_ofText before [] hbefore List.not_mem_nil piece
      rw [hnumber] at hfirst
      cases rest with
      | nil =>
          cases place with
          | zero => simpa [joinWith] using hfirst hpieces.1 (.inl rfl)
          | succ place =>
              apply lineText?_of_lineCount_lt
              rw [lineCount_ofText, joinWith, List.count_append, List.count_eq_zero.2 hpieces.1]
              omega
      | cons next more =>
          have hjoin : joinWith ['\n'] (piece :: next :: more) =
              piece ++ ['\n'] ++ joinWith ['\n'] (next :: more) := rfl
          rw [hjoin]
          cases place with
          | zero => simpa using hfirst hpieces.1 (.inr ⟨_, rfl⟩)
          | succ place =>
              have hends : EndsLine (before ++ (piece ++ ['\n'])) :=
                .inr ⟨before ++ piece, (List.append_assoc ..).symm⟩
              have hcount : (before ++ (piece ++ ['\n'])).count '\n' = before.count '\n' + 1 := by
                simp [List.count_eq_zero.2 hpieces.1]
              have hrest := ih hends (List.cons_ne_nil _ _) hpieces.2 place
              rw [hcount, List.append_assoc before] at hrest
              rw [List.getElem?_cons_succ, ← hrest]
              congr 1
              omega

/-- The line table cuts a text at its line feeds. -/
theorem lineText?_ofText_eq (text : List Char) (place : Nat) :
    (ofText text).lineText? text (place + 1) = (splitOn '\n' text)[place]? := by
  have hpieces := lineText?_pieces (.inl rfl) (splitOn_ne_nil '\n' text)
    (fun piece => not_mem_of_mem_splitOn) place
  rwa [List.nil_append, joinWith_splitOn, List.count_nil, Nat.zero_add, Nat.add_comm 1] at hpieces

/-- What a search for an offset among increasing ones comes to: a place where it
stands, or, where it is not found, the place at which it would have to be put
in. -/
def IsFound (starts : List Nat) (offset : Nat) : Except Nat Nat → Prop
  | .ok place => starts[place]? = some offset
  | .error place => place ≤ starts.length ∧ (∀ start ∈ starts.take place, start < offset) ∧
      ∀ start ∈ starts.drop place, offset < start

/-- The line that a search leads to. A line that starts at the offset is the
one. -/
def lineOf : Except Nat Nat → Nat
  | .ok place => place + 1
  | .error place => place

theorem length_takeWhile_eq {starts : List Nat} {place offset : Nat}
    (hbound : place ≤ starts.length) (hbefore : ∀ start ∈ starts.take place, start ≤ offset)
    (hbehind : ∀ start ∈ starts.drop place, offset < start) :
    (starts.takeWhile (· ≤ offset)).length = place := by
  have hrest : (starts.drop place).takeWhile (· ≤ offset) = [] := by
    cases hdrop : starts.drop place with
    | nil => rfl
    | cons first rest =>
        have hfirst := hbehind first (hdrop ▸ List.mem_cons_self)
        exact List.takeWhile_cons_of_neg (by simpa using hfirst)
  rw [← List.take_append_drop place starts, List.takeWhile_append_of_pos (by simpa using hbefore),
    hrest, List.append_nil, List.length_take, Nat.min_eq_left hbound]

/-- However an offset is searched for among the starts, its line comes out the
same. -/
theorem lineOf_eq_lineAt {table : LineTable} (hstarts : table.starts.Pairwise (· < ·))
    {offset : Nat} {found : Except Nat Nat} (h : IsFound table.starts offset found) :
    lineOf found = table.lineAt offset := by
  symm
  cases found with
  | error place =>
      obtain ⟨hbound, hbefore, hbehind⟩ := h
      exact length_takeWhile_eq hbound
        (fun start hstart => Nat.le_of_lt (hbefore start hstart)) hbehind
  | ok place =>
      obtain ⟨hbound, rfl⟩ := List.getElem?_eq_some_iff.1 h
      have hlt := List.pairwise_iff_getElem.1 hstarts
      change _ = place + 1
      refine length_takeWhile_eq hbound (fun start hstart => ?_) fun start hstart => ?_
      · obtain ⟨index, hindex, rfl⟩ := List.mem_take_iff_getElem.1 hstart
        rcases Nat.lt_or_ge index place with hbefore | hat
        · exact Nat.le_of_lt (hlt index place (by omega) hbound hbefore)
        · have hsame : index = place := by omega
          subst hsame
          exact Nat.le_refl _
      · obtain ⟨index, hindex, rfl⟩ := List.mem_drop_iff_getElem.1 hstart
        exact hlt place (place + 1 + index) hbound (by omega) (by omega)

theorem exists_isFound {starts : List Nat} (hstarts : starts.Pairwise (· < ·)) (offset : Nat) :
    ∃ found, IsFound starts offset found := by
  by_cases hmember : offset ∈ starts
  · obtain ⟨place, hplace⟩ := List.mem_iff_getElem?.1 hmember
    exact ⟨.ok place, hplace⟩
  · have hlt := List.pairwise_iff_getElem.1 hstarts
    refine ⟨.error (starts.findIdx (offset < ·)), List.findIdx_le_length, fun start hstart => ?_,
      fun start hstart => ?_⟩
    · obtain ⟨place, hplace, rfl⟩ := List.mem_take_iff_getElem.1 hstart
      have hnot := List.not_of_lt_findIdx (Nat.lt_of_lt_of_le hplace (Nat.min_le_left _ _))
      have hother : starts[place] ≠ offset := fun h => hmember (h ▸ List.getElem_mem _)
      rw [decide_eq_false_iff_not] at hnot
      omega
    · obtain ⟨behind, hplace, rfl⟩ := List.mem_drop_iff_getElem.1 hstart
      have hbound : starts.findIdx (offset < ·) < starts.length := by omega
      have hfirst : offset < starts[starts.findIdx (offset < ·)] :=
        of_decide_eq_true (List.findIdx_getElem (w := hbound))
      cases behind with
      | zero => exact hfirst
      | succ behind =>
          have hlater := hlt _ (starts.findIdx (offset < ·) + (behind + 1)) hbound (by omega)
            (by omega)
          exact Nat.lt_trans hfirst hlater

theorem positionAt_of_takeBytes? {text before : List Char} {offset : Nat}
    (h : takeBytes? offset text = some before) :
    (ofText text).positionAt text offset = Position.start.after before := by
  obtain ⟨rest, rfl, rfl⟩ := Bytes.takeBytes?_eq_some_iff.1 h
  exact Position.ofOffset_byteSize before rest

theorem offset_eq_of_positionAt_eq {text before others : List Char} {offset other : Nat}
    (hoffset : takeBytes? offset text = some before) (hother : takeBytes? other text = some others)
    (h : (ofText text).positionAt text offset = (ofText text).positionAt text other) :
    offset = other := by
  rw [positionAt_of_takeBytes? hoffset, positionAt_of_takeBytes? hother] at h
  obtain ⟨rest, hrest, rfl⟩ := Bytes.takeBytes?_eq_some_iff.1 hoffset
  obtain ⟨more, hmore, rfl⟩ := Bytes.takeBytes?_eq_some_iff.1 hother
  rw [Position.eq_of_after_eq (hrest.symm.trans hmore) h]

/-- The line table of a text. The lines start behind the bytes of its line
feeds, in increasing order; they are the pieces between the line feeds, so
joined by them they are the text; and any search among the starts leads to the
same line. An offset that cuts no character has the position that counts the
line feeds before it and the characters since the last of them, and no other
such offset has it. -/
theorem ofText_is_exact (text : List Char) :
    (ofText text).starts.Pairwise (· < ·) ∧
    (ofText text).starts = 0 :: ((Utf8.encode text).findIdxs (· == 10)).map (· + 1) ∧
    (ofText text).lineCount = text.count '\n' + 1 ∧
    (∃ lines : List (List Char), lines.length = (ofText text).lineCount ∧
      (∀ place, (ofText text).lineText? text (place + 1) = lines[place]?) ∧
      joinWith ['\n'] lines = text) ∧
    (∀ offset, (∃ found, IsFound (ofText text).starts offset found) ∧
      ∀ found, IsFound (ofText text).starts offset found →
        lineOf found = (ofText text).lineAt offset) ∧
    (∀ offset before, takeBytes? offset text = some before →
      (ofText text).positionAt text offset =
        ⟨1 + before.count '\n', 1 + (before.reverse.takeWhile (· != '\n')).length⟩) ∧
    ∀ offset other before others, takeBytes? offset text = some before →
      takeBytes? other text = some others → offset ≠ other →
      (ofText text).positionAt text offset ≠ (ofText text).positionAt text other := by
  have hstarts := pairwise_starts text
  refine ⟨hstarts, ?_, lineCount_ofText text,
    ⟨splitOn '\n' text, ?_, lineText?_ofText_eq text, joinWith_splitOn '\n' text⟩,
    fun offset => ⟨exists_isFound hstarts offset, fun _ => lineOf_eq_lineAt hstarts⟩, ?_, ?_⟩
  · rw [ofText, offsetsAfterNewlines_eq_findIdxs]
  · rw [length_splitOn, lineCount_ofText]
  · intro offset before h
    rw [positionAt_of_takeBytes? h, Position.start_after]
  · intro offset other before others hoffset hother hne hsame
    exact hne (offset_eq_of_positionAt_eq hoffset hother hsame)

/-- Three lines, of which the first has a character of two bytes and the second
is empty. -/
def threeLines : List Char := ['é', '\n', '\n', 'x']

theorem ofText_is_exact_wide :
    IsFound (ofText threeLines).starts 2 (.error 1) ∧
      IsFound (ofText threeLines).starts 3 (.ok 1) ∧
      (ofText threeLines).lineAt 2 = 1 ∧ (ofText threeLines).lineAt 3 = 2 ∧
      takeBytes? 2 threeLines = some ['é'] ∧ takeBytes? 4 threeLines = some ['é', '\n', '\n'] ∧
      (ofText threeLines).positionAt threeLines 2 = ⟨1, 2⟩ ∧
      (ofText threeLines).positionAt threeLines 2 ≠ (ofText threeLines).positionAt threeLines 4 := by
  obtain ⟨-, -, -, -, hsearch, hposition, hapart⟩ := ofText_is_exact threeLines
  have hmiss : IsFound (ofText threeLines).starts 2 (.error 1) := by
    refine ⟨by decide, ?_, ?_⟩ <;> decide
  have hhit : IsFound (ofText threeLines).starts 3 (.ok 1) := by
    change (ofText threeLines).starts[1]? = some 3
    decide
  have hfirst : takeBytes? 2 threeLines = some ['é'] := by decide
  have hlast : takeBytes? 4 threeLines = some ['é', '\n', '\n'] := by decide
  exact ⟨hmiss, hhit, ((hsearch 2).2 _ hmiss).symm, ((hsearch 3).2 _ hhit).symm, hfirst, hlast,
    hposition 2 _ hfirst, hapart 2 4 _ _ hfirst hlast (by decide)⟩

end LineTable

end ConfigNotation
