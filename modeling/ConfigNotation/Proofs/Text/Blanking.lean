import Mathlib.Data.List.Forall2
import ConfigNotation.Proofs.Text.Lines
import ConfigNotation.Proofs.Text.Parts
import ConfigNotation.Proofs.Token.Tiling

/-!
What is left of a text when its comments are blanked. Every character keeps its place, and
nothing is left that would be taken for a comment, so that blanking a second time changes
nothing.
-/

namespace ConfigNotation

namespace Text

/-- What may stand in the place of a character: the character, or a space if it
ends no line. -/
structure KeepsPlace (c d : Char) : Prop where
  lineFeed : d = '\n' ↔ c = '\n'
  same : d = c ∨ d = ' '

theorem CommentMode.step_keepsPlace (mode : CommentMode) (previous : Option Char) (offset : Nat)
    (c : Char) :
    KeepsPlace c (mode.step previous offset c).2 where
  lineFeed := mode.step_lineFeed previous offset c
  same := by
    cases mode with
    | code =>
        unfold step
        dsimp only
        split
        · exact .inl rfl
        · split
          · exact .inr rfl
          · split
            · exact .inr rfl
            · exact .inl rfl
    | string escaped =>
        unfold step
        dsimp only
        split
        · exact .inl rfl
        · split
          · exact .inl rfl
          · split <;> exact .inl rfl
    | line =>
        unfold step
        dsimp only
        split
        · exact .inl rfl
        · exact .inr rfl
    | block opening =>
        unfold step blanked
        dsimp only
        split
        · exact .inr rfl
        · dsimp only
          split
          · next hend => exact .inl hend.symm
          · exact .inr rfl

theorem blankFrom_keepsPlace (mode : CommentMode) (previous : Option Char) (offset : Nat)
    (text : List Char) :
    List.Forall₂ KeepsPlace text (blankFrom mode previous offset text).1 := by
  induction text generalizing mode previous offset with
  | nil => exact .nil
  | cons c rest ih =>
      rw [blankFrom_cons]
      exact .cons (mode.step_keepsPlace previous offset c) (ih _ _ _)

/-- A character that is neither in a text nor a space is in nothing that keeps
its places. -/
theorem not_mem_of_keepsPlace {text written : List Char} {c : Char}
    (h : List.Forall₂ KeepsPlace text written) (hspace : c ≠ ' ') (hnot : c ∉ text) :
    c ∉ written := by
  induction h with
  | nil => exact List.not_mem_nil
  | cons hfirst _ ih =>
      simp only [List.mem_cons, not_or] at hnot ⊢
      refine ⟨?_, ih hnot.2⟩
      rintro rfl
      rcases hfirst.same with hsame | hblank
      · exact hnot.1 hsame
      · exact hspace hblank

theorem return_not_mem_normalizeNewlines (text : List Char) : '\r' ∉ normalizeNewlines text := by
  fun_induction normalizeNewlines text with
  | case1 => exact List.not_mem_nil
  | case2 rest ih =>
      simp only [List.mem_cons, not_or]
      exact ⟨by decide, ih⟩
  | case3 c rest _ ih =>
      simp only [List.mem_cons, not_or]
      refine ⟨?_, ih⟩
      split
      · decide
      · next hne => exact Ne.symm hne

/-- A text that ends inside a comment between apostrophes: what stands before
the apostrophe that opens the comment, and what is left of that. -/
structure EndsInBlock (text front left : List Char) : Prop where
  covers : ∃ inside, text = front ++ '\'' :: inside ∧ InBlock inside
  stripped : Stripped front left
  opening : front.getLast? ≠ some '\\'

/-- The mode in which the text that is left is read again: no comment is open. -/
def CommentMode.settled : CommentMode → CommentMode
  | .string escaped => .string escaped
  | _ => .code

/-- A backslash in front of code is left in front of it. -/
theorem CommentMode.step_backslash {mode : CommentMode} {previous : Option Char} {offset : Nat}
    (h : (mode.step previous offset '\\').1 = .code) :
    (mode.step previous offset '\\').2 = '\\' := by
  cases mode with
  | code => rfl
  | string escaped => cases escaped <;> cases h
  | line => cases h
  | block opening => simp [step, isCommentQuote] at h

/-- What is left of a character is left alone when it is read again. What counts
of the characters in front of it is a backslash before an apostrophe in code. -/
theorem CommentMode.step_settled (mode : CommentMode) {previous earlier : Option Char}
    (hearlier : mode = .code → previous = some '\\' → earlier = some '\\') (offset other : Nat)
    (c : Char) :
    mode.settled.step earlier other (mode.step previous offset c).2 =
      ((mode.step previous offset c).1.settled, (mode.step previous offset c).2) := by
  have hspace (earlier : Option Char) : step .code earlier other ' ' = (.code, ' ') :=
    step_code (by decide) (by decide) nofun
  have hfeed (earlier : Option Char) : step .code earlier other '\n' = (.code, '\n') :=
    step_code (by decide) (by decide) nofun
  cases mode with
  | code =>
      by_cases hquote : c = '"'
      · subst hquote
        rfl
      · by_cases hhash : c = '#'
        · subst hhash
          exact hspace earlier
        · by_cases hmark : c = '\'' → previous = some '\\'
          · rw [step_code hquote hhash hmark]
            exact step_code hquote hhash fun hc => hearlier rfl (hmark hc)
          · rw [Classical.not_imp] at hmark
            obtain ⟨rfl, hopening⟩ := hmark
            rw [step_opening hopening]
            exact hspace earlier
  | string escaped =>
      cases escaped with
      | true => rfl
      | false =>
          by_cases hquote : c = '"'
          · subst hquote
            rfl
          · by_cases hbackslash : c = '\\'
            · subst hbackslash
              rfl
            · rw [step_string hquote hbackslash]
              exact step_string hquote hbackslash
  | line =>
      by_cases hend : c = '\n'
      · subst hend
        exact hfeed earlier
      · rw [step_line hend, blanked, if_neg hend]
        exact hspace earlier
  | block opening =>
      by_cases hmark : c = '\'' → previous = some '\\'
      · rw [step_block hmark, blanked]
        split
        · exact hfeed earlier
        · exact hspace earlier
      · rw [Classical.not_imp] at hmark
        obtain ⟨rfl, hclosing⟩ := hmark
        rw [step_closing hclosing]
        exact hspace earlier

/-- Blanking leaves alone what it has left of a text. -/
theorem blankFrom_settled (mode : CommentMode) {previous earlier : Option Char}
    (hearlier : mode = .code → previous = some '\\' → earlier = some '\\') (offset other : Nat)
    (text : List Char) :
    blankFrom mode.settled earlier other (blankFrom mode previous offset text).1 =
      ((blankFrom mode previous offset text).1,
        (blankFrom mode previous offset text).2.settled) := by
  induction text generalizing mode previous earlier offset other with
  | nil => rfl
  | cons c rest ih =>
      have hnext : (mode.step previous offset c).1 = .code → some c = some '\\' →
          some (mode.step previous offset c).2 = some '\\' := by
        intro hcode hc
        cases hc
        rw [CommentMode.step_backslash hcode]
      rw [blankFrom_cons, blankFrom_cons, CommentMode.step_settled mode hearlier]
      dsimp only
      rw [ih _ hnext]

section

variable {source text : List Char}

theorem stripComments_keepsPlace (h : stripComments source = .ok text) :
    List.Forall₂ KeepsPlace (normalizeNewlines source) text := by
  rw [← stripComments_eq_ok h]
  exact blankFrom_keepsPlace .code none 0 (normalizeNewlines source)

/-- Without comments a text has none to be blanked. -/
theorem stripComments_again (h : stripComments source = .ok text) :
    stripComments text = .ok text := by
  have hreturn := not_mem_of_keepsPlace (stripComments_keepsPlace h) (by decide)
    (return_not_mem_normalizeNewlines source)
  have hagain : blankFrom .code none 0 text =
      (text, (blankFrom .code none 0 (normalizeNewlines source)).2.settled) := by
    rw [← stripComments_eq_ok h]
    exact blankFrom_settled .code (fun _ => id) 0 0 (normalizeNewlines source)
  rw [stripComments, normalizeNewlines_of_not_mem hreturn, hagain]
  cases (blankFrom .code none 0 (normalizeNewlines source)).2 <;> rfl

/-- Comments are blanked unless one between apostrophes is open at the end. -/
theorem stripComments_eq_ok_iff :
    stripComments source = .ok text ↔
      ∃ mode, Parted (normalizeNewlines source) text mode ∧ ∀ opening, mode ≠ .block opening := by
  simp only [parted_iff, stripComments]
  split
  · next written opening heq =>
    simp only [reduceCtorEq, false_iff, not_exists, not_and]
    intro mode hmode hnot
    cases heq.symm.trans hmode
    exact hnot opening rfl
  · next written mode hnot heq =>
    simp only [Except.ok.injEq]
    constructor
    · rintro rfl
      exact ⟨mode, heq, fun opening hblock => hnot opening hblock⟩
    · rintro ⟨other, hother, _⟩
      cases heq.symm.trans hother
      rfl

/-- What stands before the apostrophe of the open comment takes as many places
in the source as in what is left of it, so that both name the same line and
column. -/
theorem Stripped.start_after {front left : List Char} (h : Stripped front left) :
    Position.start.after left = Position.start.after front := by
  have hlength : left.length = front.length := by
    rw [← length_blankFrom .code none 0 front, h.blankFrom]
  have hplace := after_take_blankFrom .code none 0 front front.length .start
  rw [h.blankFrom, List.take_length, ← hlength, List.take_length] at hplace
  exact hplace

theorem EndsInBlock.refused {front left : List Char}
    (h : EndsInBlock (normalizeNewlines source) front left) :
    stripComments source = .error ⟨.unterminatedBlockComment,
      .ofOffsets (byteSize left) (byteSize left + 1), (Position.start.after front).recorded⟩ := by
  obtain ⟨inside, htext, hinside⟩ := h.covers
  have hblank := (OpenEnd.block h.opening hinside).blankFrom h.stripped.blankFrom
  rw [Text.stripComments, htext, hblank]
  dsimp only
  rw [Position.ofOffset_byteSize, h.stripped.start_after]

theorem stripComments_eq_error_iff {error : LexError} :
    stripComments source = .error error ↔
      ∃ front left, EndsInBlock (normalizeNewlines source) front left ∧
        error = ⟨.unterminatedBlockComment, .ofOffsets (byteSize left) (byteSize left + 1),
          (Position.start.after front).recorded⟩ := by
  constructor
  · intro h
    obtain ⟨written, mode, hparted⟩ := exists_parted (normalizeNewlines source)
    cases mode with
    | block opening =>
        generalize hsource : normalizeNewlines source = whole at hparted
        obtain ⟨hfront, htail⟩ := hparted
        cases htail with
        | @block body hopening hinside =>
            have hends : EndsInBlock (normalizeNewlines source) _ _ :=
              ⟨⟨body, hsource, hinside⟩, hfront, hopening⟩
            rw [hends.refused] at h
            cases h
            exact ⟨_, _, hsource ▸ hends, rfl⟩
    | _ =>
        rw [stripComments_eq_ok_iff.2 ⟨_, hparted, fun _ hblock => by cases hblock⟩] at h
        cases h
  · rintro ⟨front, left, hends, rfl⟩
    exact hends.refused

/-- In a source of less than four gibibytes the apostrophe is reported where it
stands. -/
theorem EndsInBlock.refused_exact {front left : List Char}
    (h : EndsInBlock (normalizeNewlines source) front left)
    (hsize : byteSize source < 2 ^ 32) :
    stripComments source = .error ⟨.unterminatedBlockComment,
      ⟨byteSize left, byteSize left + 1⟩, Position.start.after front⟩ := by
  obtain ⟨inside, htext, _⟩ := h.covers
  have hbytes : byteSize left ≤ byteSize front := by
    have hfewer := byteSize_blankFrom_le .code none 0 front
    rwa [h.stripped.blankFrom] at hfewer
  have hfront : byteSize front < Span.limit := by
    have hlines := byteSize_normalizeNewlines_le source
    rw [htext, byteSize_append, byteSize_cons] at hlines
    have hmark : Char.utf8Size '\'' = 1 := rfl
    rw [Span.limit]
    omega
  rw [h.refused, Span.ofOffsets_eq (Nat.le_succ _) (by omega),
    Position.recorded_start_after (Nat.lt_of_le_of_lt (length_le_byteSize front) hfront)]

end

end Text

open Text

/-- Without its comments a text has the same tokens. -/
theorem lex_again {source : String} {lexed : Lexed} (h : lex source = .ok lexed) :
    lex lexed.text = .ok lexed := by
  cases hstrip : stripComments source.toList with
  | error error =>
      rw [lex, hstrip] at h
      cases h
  | ok text =>
      rw [lex_eq hstrip] at h
      cases htokens : tokensBehind [] text with
      | error error =>
          rw [htokens] at h
          cases h
      | ok tokens =>
          rw [htokens] at h
          cases h
          have hagain : stripComments (String.ofList text).toList = .ok text := by
            rw [String.toList_ofList]
            exact stripComments_again hstrip
          rw [lex_eq hagain, htokens]
          rfl

/-- Blanking succeeds just on the texts that end outside of comments between
apostrophes, and leaves their code and strings. What it leaves has a character
in each place of the source with its line ends normalized, and is left alone by
blanking; tokens that are cut from it are cut from it again. A text that ends
inside a comment is refused with the position of the apostrophe that opens the
comment. The line and the column are kept as numbers of 32 bits, the largest of
which stands for all that lie past it; below four gibibytes none does. -/
theorem comments_blanked_in_place (source : String) :
    (∀ text, stripComments source.toList = .ok text ↔
      ∃ mode, Parted (normalizeNewlines source.toList) text mode ∧
        ∀ opening, mode ≠ .block opening) ∧
    (∀ text, stripComments source.toList = .ok text →
      List.Forall₂ KeepsPlace (normalizeNewlines source.toList) text ∧
        stripComments text = .ok text) ∧
    (∀ lexed, lex source = .ok lexed → lex lexed.text = .ok lexed) ∧
    (∀ error, stripComments source.toList = .error error ↔
      ∃ front left, EndsInBlock (normalizeNewlines source.toList) front left ∧
        error = ⟨.unterminatedBlockComment, .ofOffsets (byteSize left) (byteSize left + 1),
          (Position.start.after front).recorded⟩) ∧
    (byteSize source.toList < 2 ^ 32 → ∀ front left,
      EndsInBlock (normalizeNewlines source.toList) front left →
        stripComments source.toList = .error ⟨.unterminatedBlockComment,
          ⟨byteSize left, byteSize left + 1⟩, Position.start.after front⟩) := by
  refine ⟨?_, ?_, ?_, ?_, ?_⟩
  · intro text
    exact stripComments_eq_ok_iff
  · intro text h
    exact ⟨stripComments_keepsPlace h, stripComments_again h⟩
  · intro lexed h
    exact lex_again h
  · intro error
    exact stripComments_eq_error_iff
  · intro hsize front left hends
    exact hends.refused_exact hsize

/-- Blanks, and an apostrophe that opens a comment behind them. -/
theorem endsInBlock_blanks (count : Nat) :
    EndsInBlock (List.replicate count ' ' ++ ['\'']) (List.replicate count ' ')
      (List.replicate count ' ') where
  covers := ⟨[], rfl, inBlock_nil⟩
  stripped := by
    induction count with
    | zero => exact .nil
    | succ count ih =>
        rw [List.replicate_succ']
        exact ih.code (by decide) (by decide) nofun
  opening hlast := by
    have hmember := List.mem_of_getLast? hlast
    rw [List.mem_replicate] at hmember
    exact absurd hmember.2 (by decide)

theorem start_after_blanks (count : Nat) :
    Position.start.after (List.replicate count ' ') = ⟨1, count + 1⟩ := by
  rw [Position.after_of_not_mem (by simp [List.mem_replicate]), List.length_replicate,
    Nat.add_comm count]
  rfl

theorem byteSize_blanks (count : Nat) : byteSize (List.replicate count ' ') = count := by
  induction count with
  | zero => rfl
  | succ count ih =>
      rw [List.replicate_succ, byteSize_cons, ih, Nat.add_comm count]
      rfl

theorem stripComments_blanks (count : Nat) :
    stripComments (List.replicate count ' ' ++ ['\'']) = .error ⟨.unterminatedBlockComment,
      .ofOffsets count (count + 1), (⟨1, count + 1⟩ : Position).recorded⟩ := by
  have hreturn : '\r' ∉ List.replicate count ' ' ++ ['\''] := by simp [List.mem_replicate]
  have hends := endsInBlock_blanks count
  rw [← normalizeNewlines_of_not_mem hreturn] at hends
  rw [hends.refused, byteSize_blanks, start_after_blanks]

/-- Behind 2 ^ 32 blanks an apostrophe is not reported where it stands. And a
comment is found where the scanner sees none: the quote of the regular
expression opens a string that ends in front of `it`, so that the apostrophe is
taken for code. -/
theorem comment_reported_elsewhere :
    (∃ error, stripComments (List.replicate 0x100000000 ' ' ++ ['\'']) = .error error ∧
      error.position = ⟨1, 0xFFFFFFFF⟩ ∧
      Position.start.after (List.replicate 0x100000000 ' ') = ⟨1, 0x100000001⟩) ∧
    ∃ tokens, tokensBehind [] "/\"/; \"it's\";".toList = .ok tokens ∧
      ⟨.string, "\"it's\"", ⟨5, 11⟩, ⟨1, 6⟩⟩ ∈ tokens ∧
      stripComments "/\"/; \"it's\";".toList =
        .error ⟨.unterminatedBlockComment, ⟨8, 9⟩, ⟨1, 9⟩⟩ := by
  refine ⟨⟨_, stripComments_blanks 0x100000000, rfl, start_after_blanks 0x100000000⟩, ?_⟩
  exact ⟨[⟨.regExp, "/\"/", ⟨0, 3⟩, ⟨1, 1⟩⟩, ⟨.semicolon, ";", ⟨3, 4⟩, ⟨1, 4⟩⟩,
    ⟨.string, "\"it's\"", ⟨5, 11⟩, ⟨1, 6⟩⟩, ⟨.semicolon, ";", ⟨11, 12⟩, ⟨1, 12⟩⟩,
    ⟨.endOfInput, "", ⟨12, 12⟩, ⟨1, 13⟩⟩], eq_ok_of_toOption (by decide +kernel), by decide, rfl⟩

end ConfigNotation
