import ConfigNotation.Proofs.Token.Spelling
import ConfigNotation.Syntax.Cursor

/-!
Reading from a cursor by kinds and texts. Where the tokens stand does not decide what is
read, so that a reader is followed over the tags of the tokens that are left.
-/

namespace ConfigNotation

namespace Cursor

/-- The kinds and texts of the tokens that are left. -/
def tags (cursor : Cursor) : List Tag := cursor.tokens.map Token.tag

variable {cursor : Cursor} {kind : TokenKind} {text : String} {rest : List Tag}

theorem tokens_of_tags (h : cursor.tags = (kind, text) :: rest) :
    ∃ token tokens, cursor.tokens = token :: tokens ∧ token.kind = kind ∧ token.text = text ∧
      tokens.map Token.tag = rest := by
  obtain ⟨token, tokens, htokens, htag, hrest⟩ := List.map_eq_cons_iff.1 h
  cases htag
  exact ⟨token, tokens, htokens, rfl, rfl, hrest⟩

theorem kind_of_tags (h : cursor.tags = (kind, text) :: rest) : cursor.kind = kind := by
  obtain ⟨token, tokens, htokens, hkind, _⟩ := tokens_of_tags h
  simp [Cursor.kind, current, htokens, hkind]

theorem next?_of_tags (h : cursor.tags = (kind, text) :: rest) (hkind : kind ≠ .endOfInput) :
    ∃ parsed, cursor.next? = some parsed ∧ parsed.value.kind = kind ∧ parsed.value.text = text ∧
      parsed.after.tags = rest := by
  obtain ⟨token, tokens, htokens, rfl, htext, hrest⟩ := tokens_of_tags h
  obtain ⟨_, previous⟩ := cursor
  subst htokens
  exact ⟨_, if_neg hkind, rfl, htext, hrest⟩

theorem take?_of_tags (h : cursor.tags = (kind, text) :: rest) (hkind : kind ≠ .endOfInput) :
    ∃ parsed, cursor.take? kind = some parsed ∧ parsed.value.kind = kind ∧
      parsed.value.text = text ∧ parsed.after.tags = rest := by
  obtain ⟨parsed, hnext, hsame, htext, hrest⟩ := next?_of_tags h hkind
  exact ⟨parsed, by simp [take?, hnext, hsame], hsame, htext, hrest⟩

theorem take?_eq_none {other : TokenKind} (h : cursor.tags = (kind, text) :: rest)
    (hother : kind ≠ other) :
    cursor.take? other = none := by
  obtain ⟨token, tokens, htokens, rfl, _⟩ := tokens_of_tags h
  obtain ⟨_, previous⟩ := cursor
  subst htokens
  by_cases hend : token.kind = .endOfInput
  · simp [take?, next?, hend]
  · simp [take?, next?, hend, hother]

theorem eat_eq_here {other : TokenKind} (h : cursor.tags = (kind, text) :: rest)
    (hother : kind ≠ other) :
    cursor.eat other = .here false cursor := by
  rw [eat, take?_eq_none h hother]

theorem eat_of_tags (h : cursor.tags = (kind, text) :: rest) (hkind : kind ≠ .endOfInput) :
    ∃ found, cursor.eat kind = found ∧ found.value = true ∧ found.after.tags = rest := by
  obtain ⟨parsed, htake, _, _, hrest⟩ := take?_of_tags h hkind
  exact ⟨_, by rw [eat, htake], rfl, hrest⟩

theorem expectAs_of_tags (h : cursor.tags = (kind, text) :: rest) (hkind : kind ≠ .endOfInput)
    (expected : String) :
    ∃ parsed, cursor.expectAs kind expected = .ok parsed ∧ parsed.value.kind = kind ∧
      parsed.value.text = text ∧ parsed.after.tags = rest := by
  obtain ⟨parsed, htake, hread⟩ := take?_of_tags h hkind
  exact ⟨parsed, by rw [expectAs, htake], hread⟩

theorem expect_of_tags (h : cursor.tags = (kind, text) :: rest) (hkind : kind ≠ .endOfInput) :
    ∃ parsed, cursor.expect kind = .ok parsed ∧ parsed.value.kind = kind ∧
      parsed.value.text = text ∧ parsed.after.tags = rest :=
  expectAs_of_tags h hkind _

end Cursor

/-- A reader succeeds with a value of a kind and stops in front of some tags. -/
def Reads {α : Type} {before : Cursor} (result : Except ParseError (Parsed α before))
    (rest : List Tag) (property : α → Prop) : Prop :=
  ∃ parsed, result = .ok parsed ∧ parsed.after.tags = rest ∧ property parsed.value

end ConfigNotation
