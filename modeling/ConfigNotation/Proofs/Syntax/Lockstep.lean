import ConfigNotation.Proofs.Syntax.Takes

/-!
The parser on two lists of tokens that agree up to the first end of the input. All readers
keep step: they take the same tokens on both lists and leave the same ones, or they give up
at the same token in the same way. So whatever stands behind the first end makes no
difference, and no reader gets past it.
-/

namespace ConfigNotation

namespace Grammar

/-- The tokens up to the first end of the input, with this one. It stands behind
the last token if it is not among them. -/
def upToEnd : List Token → List Token
  | [] => [.missing]
  | token :: rest => if token.kind = .endOfInput then [token] else token :: upToEnd rest

theorem upToEnd_cons {token : Token} (h : token.kind ≠ .endOfInput) (rest : List Token) :
    upToEnd (token :: rest) = token :: upToEnd rest :=
  if_neg h

/-- Tokens of which none is the end of the input stay where they are: the cut is
made among those behind them, so a list can be followed token by token. -/
theorem upToEnd_append {taken : List Token} (h : ∀ token ∈ taken, token.kind ≠ .endOfInput)
    (rest : List Token) : upToEnd (taken ++ rest) = taken ++ upToEnd rest := by
  induction taken with
  | nil => rfl
  | cons token taken ih =>
      obtain ⟨htoken, htaken⟩ := List.forall_mem_cons.1 h
      rw [List.cons_append, upToEnd_cons htoken, ih htaken, List.cons_append]

end Grammar

open Grammar

namespace Cursor

variable {cursor after : Cursor}

/-- A cursor looks at the first token of what is left up to the end. On an empty
list both sides are the token that stands for what is missing. -/
theorem head?_upToEnd (cursor : Cursor) : (upToEnd cursor.tokens).head? = some cursor.current := by
  obtain ⟨tokens, previous⟩ := cursor
  cases tokens with
  | nil => rfl
  | cons token rest =>
      change (if token.kind = .endOfInput then [token] else token :: upToEnd rest).head? =
        some token
      split <;> rfl

/-- Every error names the current token, so this is what places an error among
the tokens up to the first end. -/
theorem current_mem_upToEnd (cursor : Cursor) : cursor.current ∈ upToEnd cursor.tokens :=
  List.mem_of_head? cursor.head?_upToEnd

theorem next?_of_end (h : cursor.kind = .endOfInput) : cursor.next? = none := by
  cases hnext : cursor.next? with
  | none => rfl
  | some parsed =>
      have htakes := takes_of_next? hnext
      exact absurd (htakes.kind.symm.trans h) (htakes.inside _ List.mem_cons_self)

theorem next?_of_inside (h : cursor.kind ≠ .endOfInput) :
    ∃ after hless, cursor.next? = some ⟨cursor.current, after, hless⟩ := by
  obtain ⟨tokens, previous⟩ := cursor
  cases tokens with
  | nil => exact absurd rfl h
  | cons token rest => exact ⟨⟨rest, token.span⟩, Nat.lt_succ_self _, if_neg h⟩

theorem nextKind_of_next? {parsed : Parsed Token cursor} (h : cursor.next? = some parsed) :
    cursor.nextKind = parsed.after.kind := by
  rw [Cursor.nextKind, Cursor.kind, Cursor.current, (takes_of_next? h).tokens]
  cases parsed.after.tokens <;> rfl

end Cursor

def ParseError.AtOneOf (tokens : List Token) (error : ParseError) : Prop :=
  ∃ token ∈ tokens, error.span = token.span ∧ error.position = token.position

/-- Two results keep step: both are fine, or both are the same error at one of
some tokens. -/
inductive Agree {α β : Type} (tokens : List Token) (fine : α → β → Prop) :
    Except ParseError α → Except ParseError β → Prop where
  | ok {value : α} {other : β} (h : fine value other) : Agree tokens fine (.ok value) (.ok other)
  | error {error : ParseError} (h : error.AtOneOf tokens) :
      Agree tokens fine (.error error) (.error error)

variable {tokens : List Token}

namespace Agree

variable {α β γ δ : Type} {fine : α → β → Prop} {goal : γ → δ → Prop}
  {first : Except ParseError α} {second : Except ParseError β}

/-- Two readers that keep step can be followed by two that keep step on equal
values. Everything below is put together with this lemma, one rule of the
grammar after the other. -/
theorem bind {next : α → Except ParseError γ} {other : β → Except ParseError δ}
    (h : Agree tokens fine first second)
    (hnext : ∀ value same, fine value same → Agree tokens goal (next value) (other same)) :
    Agree tokens goal (first >>= next) (second >>= other) := by
  cases h with
  | ok h => exact hnext _ _ h
  | error h => exact .error h

theorem inContext {context : ParseContext} (h : Agree tokens fine first second) :
    Agree tokens fine (ConfigNotation.inContext context first)
      (ConfigNotation.inContext context second) := by
  cases h with
  | ok h => exact .ok h
  | error h => exact .error h

theorem imp {other : α → β → Prop} (h : Agree tokens fine first second)
    (hother : ∀ value same, fine value same → other value same) :
    Agree tokens other first second := by
  cases h with
  | ok h => exact .ok (hother _ _ h)
  | error h => exact .error h

theorem eq {second : Except ParseError α} (h : Agree tokens Eq first second) : first = second := by
  cases h with
  | ok h => rw [h]
  | error h => rfl

/-- An error that both sides give has the place of one of the tokens, which is
all that a caller may know about it. -/
theorem atOneOf {error : ParseError} (h : Agree tokens fine (.error error) second) :
    error.AtOneOf tokens := by
  cases h with
  | error h => exact h

theorem atToken {token : Token} (h : token ∈ tokens) (fault : ParseFault) :
    Agree tokens fine (.error (.atToken fault token)) (.error (.atToken fault token)) :=
  .error ⟨token, h, rfl, rfl⟩

end Agree

/-- Two cursors keep step in a list: the same tokens are left up to the end, and
those that were taken from the list so far do not go past its first end. -/
structure Cursor.Together (tokens : List Token) (cursor other : Cursor) : Prop where
  left : upToEnd other.tokens = upToEnd cursor.tokens
  previous : other.previous = cursor.previous
  within : ∃ taken, (Cursor.start tokens).Takes taken cursor

/-- The same is read at both cursors, and they keep step behind it. -/
abbrev ParsedAlike {α : Type} {cursor other : Cursor} (tokens : List Token)
    (first : Except ParseError (Parsed α cursor)) (second : Except ParseError (Parsed α other)) :
    Prop :=
  Agree (upToEnd tokens)
    (fun ⟨value, after, _⟩ ⟨same, otherAfter, _⟩ =>
      value = same ∧ after.Together tokens otherAfter)
    first second

abbrev FoundAlike {α : Type} {cursor other : Cursor} (tokens : List Token)
    (first : Except ParseError (Found α cursor)) (second : Except ParseError (Found α other)) :
    Prop :=
  Agree (upToEnd tokens)
    (fun ⟨value, after, _⟩ ⟨same, otherAfter, _⟩ =>
      value = same ∧ after.Together tokens otherAfter)
    first second

namespace Cursor.Together

variable {cursor other : Cursor} (h : cursor.Together tokens other)

include h

/-- Cursors that keep step look at the same token, since the first token that is
left is part of what they agree on. -/
theorem current : other.current = cursor.current := by
  have hhead := congrArg List.head? h.left
  rw [head?_upToEnd, head?_upToEnd] at hhead
  exact Option.some.inj hhead

theorem kind : other.kind = cursor.kind := congrArg Token.kind h.current

/-- What is left up to the end is the end of what the whole list has up to its
own. -/
theorem left_subset : upToEnd cursor.tokens ⊆ upToEnd tokens := by
  obtain ⟨taken, htakes⟩ := h.within
  have hsplit : upToEnd tokens = taken ++ upToEnd cursor.tokens :=
    (congrArg upToEnd htakes.tokens).trans (upToEnd_append htakes.inside _)
  rw [hsplit]
  exact List.subset_append_right _ _

theorem current_mem : cursor.current ∈ upToEnd tokens :=
  h.left_subset cursor.current_mem_upToEnd

theorem atCurrent {α β : Type} {fine : α → β → Prop} (fault : ParseFault) :
    Agree (upToEnd tokens) fine (.error (.atToken fault cursor.current))
      (.error (.atToken fault other.current)) := by
  rw [h.current]
  exact .atToken h.current_mem fault

/-- A refusal at the current token is the same refusal at the other cursor, and
its place is that of a token up to the end. -/
theorem unexpected {α β : Type} {fine : α → β → Prop} (expected : String) :
    Agree (upToEnd tokens) fine (.error (cursor.unexpected expected))
      (.error (other.unexpected expected)) := by
  rw [Cursor.unexpected, Cursor.unexpected, h.current]
  exact .atToken h.current_mem _

/-- Both cursors stand at an end, or the same token is taken at both. -/
theorem next? :
    (cursor.next? = none ∧ other.next? = none) ∨
      ∃ token after otherAfter hless hotherLess, cursor.next? = some ⟨token, after, hless⟩ ∧
        other.next? = some ⟨token, otherAfter, hotherLess⟩ ∧ token ∈ upToEnd tokens ∧
        after.Together tokens otherAfter := by
  by_cases hend : cursor.kind = .endOfInput
  · exact .inl ⟨next?_of_end hend, next?_of_end (h.kind.trans hend)⟩
  · obtain ⟨after, hless, hnext⟩ := next?_of_inside hend
    obtain ⟨otherAfter, hotherLess, hother⟩ := next?_of_inside (h.kind.symm ▸ hend)
    have htakes := takes_of_next? hnext
    have hotherTakes := takes_of_next? hother
    rw [h.current] at hother hotherTakes
    refine .inr ⟨_, _, _, hless, hotherLess, hnext, hother, h.current_mem, ?_, ?_, ?_⟩
    · have hleft := h.left
      rw [htakes.tokens, hotherTakes.tokens, upToEnd_append htakes.inside,
        upToEnd_append hotherTakes.inside] at hleft
      exact List.append_cancel_left hleft
    · rw [htakes.previous, hotherTakes.previous]
      rfl
    · obtain ⟨taken, hwithin⟩ := h.within
      exact ⟨_, hwithin.trans htakes⟩

/-- A bracket is no end, so that the token behind it may be looked at as well. -/
theorem nextKind (hinside : cursor.kind ≠ .endOfInput) : other.nextKind = cursor.nextKind := by
  rcases h.next? with ⟨hnone, _⟩ | ⟨_, _, _, _, _, hnext, hother, _, hafter⟩
  · obtain ⟨_, _, hnext⟩ := next?_of_inside hinside
    cases hnone.symm.trans hnext
  · rw [nextKind_of_next? hnext, nextKind_of_next? hother]
    exact hafter.kind

/-- Taking a token of a kind succeeds at both cursors or at neither. If it does,
the token is one of those up to the end, and the cursors keep step behind it. -/
theorem take? (kind : TokenKind) :
    (cursor.take? kind = none ∧ other.take? kind = none) ∨
      ∃ token after otherAfter hless hotherLess, cursor.take? kind = some ⟨token, after, hless⟩ ∧
        other.take? kind = some ⟨token, otherAfter, hotherLess⟩ ∧ token ∈ upToEnd tokens ∧
        after.Together tokens otherAfter := by
  rcases h.next? with ⟨hnone, hother⟩ |
    ⟨token, after, otherAfter, hless, hotherLess, hnext, hother, htoken, hafter⟩
  · rw [Cursor.take?, Cursor.take?, hnone, hother]
    exact .inl ⟨rfl, rfl⟩
  · rw [Cursor.take?, Cursor.take?, hnext, hother, Option.filter_some, Option.filter_some]
    dsimp only
    split
    · exact .inr ⟨token, after, otherAfter, hless, hotherLess, rfl, rfl, htoken, hafter⟩
    · exact .inl ⟨rfl, rfl⟩

theorem eat (kind : TokenKind) :
    (cursor.eat kind).value = (other.eat kind).value ∧
      (cursor.eat kind).after.Together tokens (other.eat kind).after := by
  rw [Cursor.eat, Cursor.eat]
  rcases h.take? kind with ⟨hnone, hother⟩ | ⟨_, _, _, _, _, htake, hother, -, hafter⟩
  · rw [hnone, hother]
    exact ⟨rfl, h⟩
  · rw [htake, hother]
    exact ⟨rfl, hafter⟩

/-- The token that is taken is one of the list. -/
theorem expectToken (kind : TokenKind) (expected : String) :
    Agree (upToEnd tokens)
      (fun ⟨token, after, _⟩ ⟨same, otherAfter, _⟩ =>
        token = same ∧ after.Together tokens otherAfter ∧ token ∈ upToEnd tokens)
      (cursor.expectAs kind expected) (other.expectAs kind expected) := by
  rw [Cursor.expectAs, Cursor.expectAs]
  rcases h.take? kind with ⟨hnone, hother⟩ |
    ⟨token, after, otherAfter, _, _, htake, hother, htoken, hafter⟩
  · rw [hnone, hother]
    exact h.unexpected expected
  · rw [htake, hother]
    exact .ok ⟨rfl, hafter, htoken⟩

theorem expectAs (kind : TokenKind) (expected : String) :
    ParsedAlike tokens (cursor.expectAs kind expected) (other.expectAs kind expected) :=
  (h.expectToken kind expected).imp fun _ _ ⟨hvalue, hafter, _⟩ => ⟨hvalue, hafter⟩

theorem expect (kind : TokenKind) : ParsedAlike tokens (cursor.expect kind) (other.expect kind) :=
  h.expectAs kind _

end Cursor.Together

/-- Reading on keeps step if the second reader does at the place where the first
one stopped. What was taken before does not matter for it. -/
theorem Parsed.thenRead_alike {α β : Type} {cursor other : Cursor} {parsed : Parsed α cursor}
    {same : Parsed α other} {read : (cursor : Cursor) → Except ParseError (Parsed β cursor)}
    (h : ParsedAlike tokens (read parsed.after) (read same.after)) :
    ParsedAlike tokens (parsed.thenRead read) (same.thenRead read) :=
  h.bind fun _ _ hnext => .ok hnext

namespace Parser

variable {workspace : Workspace} {cursor other : Cursor}

mutual

/-- Expressions keep step. The five readers of the mutual group are proved
together, by the number of tokens that are left, as they are defined. -/
theorem expr_alike {cursor other : Cursor} (h : cursor.Together tokens other) :
    ParsedAlike tokens (expr workspace cursor) (expr workspace other) := by
  rw [expr, expr]
  refine (operand_alike h).bind ?_
  rintro ⟨left, afterLeft, hleft⟩ ⟨_, otherLeft, _⟩ ⟨⟨⟩, hafterLeft⟩
  dsimp only at hafterLeft ⊢
  rcases hafterLeft.take? .question with ⟨hnone, hother⟩ |
    ⟨mark, afterMark, otherMark, hmark, _, htake, hother, -, hafterMark⟩
  · rw [hnone, hother]
    exact .ok ⟨rfl, hafterLeft⟩
  · rw [htake, hother]
    refine (operand_alike hafterMark).bind ?_
    rintro ⟨right, afterRight, hright⟩ ⟨_, otherRight, _⟩ ⟨⟨⟩, hafterRight⟩
    exact .ok ⟨rfl, hafterRight⟩
termination_by 4 * cursor.tokens.length + 2

theorem operand_alike {cursor other : Cursor} (h : cursor.Together tokens other) :
    ParsedAlike tokens (operand workspace cursor) (operand workspace other) := by
  rw [operand.eq_def, operand.eq_def]
  rcases h.next? with ⟨hnone, hother⟩ |
    ⟨token, after, otherAfter, hless, _, hnext, hother, htoken, hafter⟩
  · rw [hnone, hother]
    exact h.unexpected _
  · rw [hnext, hother]
    dsimp only
    split
    · refine (container_alike h).bind ?_
      rintro ⟨body, afterBody, hbody⟩ ⟨_, otherBody, _⟩ ⟨⟨⟩, hafterBody⟩
      exact .ok ⟨by simp only [hafterBody.previous], hafterBody⟩
    · exact .ok ⟨rfl, hafter⟩
    · rw [hafter.kind]
      split
      · refine (callArguments_alike hafter).inContext.bind ?_
        rintro ⟨arguments, afterCall, hcall⟩ ⟨_, otherCall, _⟩ ⟨⟨⟩, hafterCall⟩
        exact .ok ⟨by simp only [hafterCall.previous], hafterCall⟩
      · refine (container_alike hafter).bind ?_
        rintro ⟨body, afterBody, hbody⟩ ⟨_, otherBody, _⟩ ⟨⟨⟩, hafterBody⟩
        exact .ok ⟨by simp only [hafterBody.previous], hafterBody⟩
      · exact .ok ⟨rfl, hafter⟩
    · split
      · split
        · exact .ok ⟨rfl, hafter⟩
        · exact .atToken htoken _
      · exact h.unexpected _
termination_by 4 * cursor.tokens.length + 1

theorem container_alike {cursor other : Cursor} (h : cursor.Together tokens other) :
    ParsedAlike tokens (container workspace cursor) (container workspace other) := by
  rw [container, container]
  refine Agree.inContext ((h.expect .leftBracket).bind ?_)
  rintro ⟨opening, afterOpening, hopening⟩ ⟨_, otherOpening, _⟩ ⟨-, hafterOpening⟩
  refine (members_alike .unknown hafterOpening).bind ?_
  rintro ⟨body, afterBody, hbody⟩ ⟨_, otherBody, _⟩ ⟨⟨⟩, hafterBody⟩
  exact .ok ⟨rfl, hafterBody⟩
termination_by 4 * cursor.tokens.length

theorem members_alike (kind : ContainerKind) {cursor other : Cursor}
    (h : cursor.Together tokens other) :
    ParsedAlike tokens (members workspace kind cursor) (members workspace kind other) := by
  rw [members.eq_def, members.eq_def]
  rcases h.take? .rightBracket with ⟨hnone, hother⟩ |
    ⟨closing, after, otherAfter, _, _, htake, hother, -, hafter⟩
  · rw [hnone, hother]
    dsimp only
    rcases h.next? with ⟨hnone, hother⟩ |
      ⟨token, after, otherAfter, hless, _, hnext, hother, htoken, hafter⟩
    · rw [hnone, hother]
      exact h.unexpected _
    · rw [hnext, hother]
      dsimp only
      split
      case h_1 =>
        refine (expr_alike hafter).bind ?_
        rintro ⟨value, afterValue, hvalue⟩ ⟨_, otherValue, _⟩ ⟨⟨⟩, hafterValue⟩
        refine (hafterValue.expect .semicolon).bind ?_
        rintro ⟨_, afterEnd, hend⟩ ⟨_, otherEnd, _⟩ ⟨-, hafterEnd⟩
        refine (members_alike kind hafterEnd).bind ?_
        rintro ⟨rest, afterRest, hrest⟩ ⟨_, otherRest, _⟩ ⟨⟨⟩, hafterRest⟩
        exact .ok ⟨rfl, hafterRest⟩
      case h_4 => exact h.unexpected _
      all_goals
        split
        · exact .atToken htoken _
        · refine (hafter.expect .arrow).bind ?_
          rintro ⟨_, afterArrow, harrow⟩ ⟨_, otherArrow, _⟩ ⟨-, hafterArrow⟩
          refine (expr_alike hafterArrow).bind ?_
          rintro ⟨value, afterValue, hvalue⟩ ⟨_, otherValue, _⟩ ⟨⟨⟩, hafterValue⟩
          refine (hafterValue.expect .semicolon).bind ?_
          rintro ⟨_, afterEnd, hend⟩ ⟨_, otherEnd, _⟩ ⟨-, hafterEnd⟩
          refine (members_alike _ hafterEnd).bind ?_
          rintro ⟨rest, afterRest, hrest⟩ ⟨_, otherRest, _⟩ ⟨⟨⟩, hafterRest⟩
          exact .ok ⟨rfl, hafterRest⟩
  · rw [htake, hother]
    exact .ok ⟨rfl, hafter⟩
termination_by 4 * cursor.tokens.length + 3

theorem callArguments_alike {cursor other : Cursor} (h : cursor.Together tokens other) :
    ParsedAlike tokens (callArguments workspace cursor) (callArguments workspace other) := by
  rw [callArguments, callArguments]
  refine (h.expect .leftParen).bind ?_
  rintro ⟨_, afterOpening, hopening⟩ ⟨_, otherOpening, _⟩ ⟨-, hafterOpening⟩
  refine (argumentsUpToEnd_alike hafterOpening).bind ?_
  rintro ⟨arguments, after, hafter⟩ ⟨_, otherAfter, _⟩ ⟨⟨⟩, hafterEnd⟩
  exact .ok ⟨rfl, hafterEnd⟩
termination_by 4 * cursor.tokens.length

theorem argumentsUpToEnd_alike {cursor other : Cursor} (h : cursor.Together tokens other) :
    ParsedAlike tokens (argumentsUpToEnd workspace cursor) (argumentsUpToEnd workspace other) := by
  rw [argumentsUpToEnd.eq_def, argumentsUpToEnd.eq_def]
  rcases h.take? .rightParen with ⟨hnone, hother⟩ |
    ⟨closing, after, otherAfter, _, _, htake, hother, -, hafter⟩
  · rw [hnone, hother]
    have hmark := (cursor.eat .spread).noLonger
    obtain ⟨hspread, hafterMark⟩ := h.eat .spread
    dsimp only
    refine (expr_alike hafterMark).bind ?_
    rintro ⟨value, afterValue, hvalue⟩ ⟨_, otherValue, _⟩ ⟨⟨⟩, hafterValue⟩
    have hcomma := (afterValue.eat .comma).noLonger
    obtain ⟨hsame, hafterComma⟩ := hafterValue.eat .comma
    dsimp only
    rw [hspread, hsame, hafterValue.kind]
    split
    · exact hafterValue.unexpected _
    · refine (argumentsUpToEnd_alike hafterComma).bind ?_
      rintro ⟨rest, afterRest, hrest⟩ ⟨_, otherRest, _⟩ ⟨⟨⟩, hafterRest⟩
      exact .ok ⟨rfl, hafterRest⟩
  · rw [htake, hother]
    exact .ok ⟨rfl, hafter⟩
termination_by 4 * cursor.tokens.length + 3

end

theorem fieldDefault_alike (inObjectType : Bool) (h : cursor.Together tokens other) :
    FoundAlike tokens (fieldDefault workspace inObjectType cursor)
      (fieldDefault workspace inObjectType other) := by
  have hbehind {mark : Parsed Token cursor} {same : Parsed Token other}
      (hafter : mark.after.Together tokens same.after) :
      FoundAlike tokens
        (do return ((← mark.thenRead (expr workspace)).map some).found)
        (do return ((← same.thenRead (expr workspace)).map some).found) := by
    refine (Parsed.thenRead_alike (expr_alike hafter)).bind ?_
    rintro ⟨value, afterValue, _⟩ ⟨_, otherValue, _⟩ ⟨⟨⟩, hafterValue⟩
    exact .ok ⟨rfl, hafterValue⟩
  rw [fieldDefault, fieldDefault]
  rcases h.take? .arrow with ⟨hnone, hother⟩ | ⟨_, _, _, _, _, htake, hother, -, hafter⟩
  · rw [hnone, hother]
    cases inObjectType with
    | false => exact .ok ⟨rfl, h⟩
    | true =>
        rcases h.take? .equals with ⟨hnone, hother⟩ | ⟨_, _, _, _, _, htake, hother, -, hafter⟩
        · rw [hnone, hother]
          exact .ok ⟨rfl, h⟩
        · rw [htake, hother]
          exact hbehind hafter
  · rw [htake, hother]
    exact hbehind hafter

mutual

/-- Types keep step, with the defaults inside of object types. As for
expressions, the readers of the mutual group go down together by the tokens that
are left. -/
theorem typeExpr_alike {cursor other : Cursor} (h : cursor.Together tokens other) :
    ParsedAlike tokens (typeExpr workspace cursor) (typeExpr workspace other) := by
  rw [typeExpr.eq_def, typeExpr.eq_def]
  apply Agree.inContext
  rcases h.next? with ⟨hnone, hother⟩ |
    ⟨token, after, otherAfter, hless, _, hnext, hother, -, hafter⟩
  · rw [hnone, hother]
    exact h.unexpected _
  · rw [hnext, hother]
    dsimp only
    split
    · exact .ok ⟨rfl, hafter⟩
    · exact .ok ⟨rfl, hafter⟩
    · rw [hafter.kind]
      split
      · refine (objectFields_alike hafter).bind ?_
        rintro ⟨fields, afterFields, hfields⟩ ⟨_, otherFields, _⟩ ⟨⟨⟩, hafterFields⟩
        exact .ok ⟨rfl, hafterFields⟩
      · refine (typeElements_alike hafter).bind ?_
        rintro ⟨elements, afterElements, helements⟩ ⟨_, otherElements, _⟩ ⟨⟨⟩, hafterElements⟩
        exact .ok ⟨rfl, hafterElements⟩
    · exact h.unexpected _
termination_by 4 * cursor.tokens.length

theorem objectFields_alike {cursor other : Cursor} (h : cursor.Together tokens other) :
    ParsedAlike tokens (objectFields workspace cursor) (objectFields workspace other) := by
  rw [objectFields.eq_def, objectFields.eq_def]
  rcases h.take? .rightBracket with ⟨hnone, hother⟩ |
    ⟨closing, after, otherAfter, _, _, htake, hother, -, hafter⟩
  · rw [hnone, hother]
    refine (field_alike true h).bind ?_
    rintro ⟨first, afterFirst, hfirst⟩ ⟨_, otherFirst, _⟩ ⟨⟨⟩, hafterFirst⟩
    refine (objectFields_alike hafterFirst).bind ?_
    rintro ⟨rest, afterRest, hrest⟩ ⟨_, otherRest, _⟩ ⟨⟨⟩, hafterRest⟩
    exact .ok ⟨rfl, hafterRest⟩
  · rw [htake, hother]
    exact .ok ⟨rfl, hafter⟩
termination_by 4 * cursor.tokens.length + 2

theorem typeElements_alike {cursor other : Cursor} (h : cursor.Together tokens other) :
    ParsedAlike tokens (typeElements workspace cursor) (typeElements workspace other) := by
  rw [typeElements.eq_def, typeElements.eq_def]
  rcases h.take? .rightBracket with ⟨hnone, hother⟩ |
    ⟨closing, after, otherAfter, _, _, htake, hother, -, hafter⟩
  · rw [hnone, hother]
    refine (typeExpr_alike h).bind ?_
    rintro ⟨element, afterElement, helement⟩ ⟨_, otherElement, _⟩ ⟨⟨⟩, hafterElement⟩
    have hend := (afterElement.eat .semicolon).noLonger
    obtain ⟨hsame, hafterEnd⟩ := hafterElement.eat .semicolon
    dsimp only
    rw [hsame, hafterElement.kind]
    split
    · exact hafterElement.unexpected _
    · refine (typeElements_alike hafterEnd).bind ?_
      rintro ⟨rest, afterRest, hrest⟩ ⟨_, otherRest, _⟩ ⟨⟨⟩, hafterRest⟩
      exact .ok ⟨rfl, hafterRest⟩
  · rw [htake, hother]
    exact .ok ⟨rfl, hafter⟩
termination_by 4 * cursor.tokens.length + 1

theorem field_alike (inObjectType : Bool) {cursor other : Cursor}
    (h : cursor.Together tokens other) :
    ParsedAlike tokens (field workspace inObjectType cursor)
      (field workspace inObjectType other) := by
  rw [field, field, h.current]
  refine (h.expectAs .assocKey _).bind ?_
  rintro ⟨key, afterKey, hkey⟩ ⟨_, otherKey, _⟩ ⟨⟨⟩, hafterKey⟩
  have hmark := (afterKey.eat .question).noLonger
  obtain ⟨hoptional, hafterMark⟩ := hafterKey.eat .question
  dsimp only
  rw [hoptional]
  refine (fieldType_alike hafterMark).bind ?_
  rintro ⟨type, afterType, htype⟩ ⟨_, otherType, _⟩ ⟨⟨⟩, hafterType⟩
  refine (fieldDefault_alike inObjectType hafterType).bind ?_
  rintro ⟨default, afterDefault, hdefault⟩ ⟨_, otherDefault, _⟩ ⟨⟨⟩, hafterDefault⟩
  refine (hafterDefault.expect .semicolon).bind ?_
  rintro ⟨_, after, hafter⟩ ⟨_, otherAfter, _⟩ ⟨-, hafterEnd⟩
  exact .ok ⟨by simp only [hafterEnd.previous], hafterEnd⟩
termination_by 4 * cursor.tokens.length + 1

theorem fieldType_alike {cursor other : Cursor} (h : cursor.Together tokens other) :
    FoundAlike tokens (fieldType workspace cursor) (fieldType workspace other) := by
  rw [fieldType.eq_def, fieldType.eq_def]
  rcases h.take? .colon with ⟨hnone, hother⟩ |
    ⟨colon, afterColon, otherColon, hcolon, _, htake, hother, -, hafterColon⟩
  · rw [hnone, hother]
    exact .ok ⟨rfl, h⟩
  · rw [htake, hother]
    refine (typeExpr_alike hafterColon).bind ?_
    rintro ⟨type, afterType, htype⟩ ⟨_, otherType, _⟩ ⟨⟨⟩, hafterType⟩
    exact .ok ⟨rfl, hafterType⟩
termination_by 4 * cursor.tokens.length

end

theorem parametersUpToEnd_alike (last : Option Parameter) {cursor other : Cursor}
    (h : cursor.Together tokens other) :
    ParsedAlike tokens (parametersUpToEnd last cursor) (parametersUpToEnd last other) := by
  rw [parametersUpToEnd.eq_def, parametersUpToEnd.eq_def]
  rcases h.take? .rightParen with ⟨hnone, hother⟩ |
    ⟨closing, after, otherAfter, _, _, htake, hother, -, hafter⟩
  · rw [hnone, hother]
    dsimp only
    split
    · exact h.atCurrent _
    · have hmark := (cursor.eat .spread).noLonger
      obtain ⟨hspread, hafterMark⟩ := h.eat .spread
      refine (hafterMark.expectAs .ident _).bind ?_
      rintro ⟨name, afterName, hname⟩ ⟨_, otherName, _⟩ ⟨⟨⟩, hafterName⟩
      have hcomma := (afterName.eat .comma).noLonger
      obtain ⟨hsame, hafterComma⟩ := hafterName.eat .comma
      dsimp only
      rw [hspread, hsame, hafterName.kind]
      split
      · exact hafterName.unexpected _
      · refine (parametersUpToEnd_alike _ hafterComma).bind ?_
        rintro ⟨rest, afterRest, hrest⟩ ⟨_, otherRest, _⟩ ⟨⟨⟩, hafterRest⟩
        exact .ok ⟨rfl, hafterRest⟩
  · rw [htake, hother]
    exact .ok ⟨rfl, hafter⟩
termination_by cursor.tokens.length

theorem parameters_alike (h : cursor.Together tokens other) :
    FoundAlike tokens (parameters cursor) (parameters other) := by
  rw [parameters, parameters]
  rcases h.take? .leftParen with ⟨hnone, hother⟩ |
    ⟨opening, after, otherAfter, _, _, htake, hother, -, hafter⟩
  · rw [hnone, hother]
    exact .ok ⟨rfl, h⟩
  · rw [htake, hother]
    refine Agree.inContext ((Parsed.thenRead_alike ?_).bind ?_)
    · exact parametersUpToEnd_alike none hafter
    · exact fun _ _ hlist => .ok hlist

theorem baseClass_alike (h : cursor.Together tokens other) :
    FoundAlike tokens (baseClass cursor) (baseClass other) := by
  rw [baseClass, baseClass]
  rcases h.take? .extendsWord with ⟨hnone, hother⟩ |
    ⟨mark, after, otherAfter, _, _, htake, hother, -, hafter⟩
  · rw [hnone, hother]
    exact .ok ⟨rfl, h⟩
  · rw [htake, hother]
    refine (Parsed.thenRead_alike (hafter.expectAs ..)).bind ?_
    rintro ⟨name, afterName, _⟩ ⟨_, otherName, _⟩ ⟨⟨⟩, hafterName⟩
    exact .ok ⟨rfl, hafterName⟩

theorem names_alike {cursor other : Cursor} (h : cursor.Together tokens other) :
    (names cursor).value = (names other).value ∧
      (names cursor).after.Together tokens (names other).after := by
  rw [names.eq_def, names.eq_def]
  rcases h.take? .ident with ⟨hnone, hother⟩ |
    ⟨name, afterName, otherName, hname, _, htake, hother, -, hafterName⟩
  · rw [hnone, hother]
    exact ⟨rfl, h⟩
  · rw [htake, hother]
    obtain ⟨hrest, hafter⟩ := names_alike hafterName
    exact ⟨congrArg (name.text :: ·) hrest, hafter⟩
termination_by cursor.tokens.length

theorem mixins_alike (h : cursor.Together tokens other) :
    FoundAlike tokens (mixins cursor) (mixins other) := by
  rw [mixins, mixins]
  rcases h.take? .includesWord with ⟨hnone, hother⟩ |
    ⟨mark, afterMark, otherMark, _, _, htake, hother, -, hafterMark⟩
  · rw [hnone, hother]
    exact .ok ⟨rfl, h⟩
  · rw [htake, hother]
    refine (hafterMark.expectAs .ident _).bind ?_
    rintro ⟨first, afterFirst, hfirst⟩ ⟨_, otherFirst, _⟩ ⟨⟨⟩, hafterFirst⟩
    obtain ⟨hrest, hafter⟩ := names_alike hafterFirst
    exact .ok ⟨congrArg (first.text :: ·) hrest, hafter⟩

theorem classFields_alike {cursor other : Cursor} (h : cursor.Together tokens other) :
    ParsedAlike tokens (classFields workspace cursor) (classFields workspace other) := by
  rw [classFields.eq_def, classFields.eq_def]
  rcases h.take? .rightBracket with ⟨hnone, hother⟩ |
    ⟨closing, after, otherAfter, _, _, htake, hother, -, hafter⟩
  · rw [hnone, hother]
    refine (field_alike false h).inContext.bind ?_
    rintro ⟨first, afterFirst, hfirst⟩ ⟨_, otherFirst, _⟩ ⟨⟨⟩, hafterFirst⟩
    refine (classFields_alike hafterFirst).bind ?_
    rintro ⟨rest, afterRest, hrest⟩ ⟨_, otherRest, _⟩ ⟨⟨⟩, hafterRest⟩
    exact .ok ⟨rfl, hafterRest⟩
  · rw [htake, hother]
    exact .ok ⟨rfl, hafter⟩
termination_by cursor.tokens.length

/-- A class keeps step: its parameters, base class, mixins and fields are read
one behind the other, each by readers that do. -/
theorem classDecl_alike (h : cursor.Together tokens other) :
    ParsedAlike tokens (classDecl workspace cursor) (classDecl workspace other) := by
  rw [classDecl, classDecl, h.current]
  refine Agree.inContext ((h.expect .classWord).bind ?_)
  rintro ⟨_, afterMark, hmark⟩ ⟨_, otherMark, _⟩ ⟨-, hafterMark⟩
  refine (hafterMark.expectAs .ident _).bind ?_
  rintro ⟨name, afterName, hname⟩ ⟨_, otherName, _⟩ ⟨⟨⟩, hafterName⟩
  refine (parameters_alike hafterName).bind ?_
  rintro ⟨parameters, afterParameters, _⟩ ⟨_, otherParameters, _⟩ ⟨⟨⟩, hafterParameters⟩
  refine (baseClass_alike hafterParameters).bind ?_
  rintro ⟨base, afterBase, hbase⟩ ⟨_, otherBase, _⟩ ⟨⟨⟩, hafterBase⟩
  refine (mixins_alike hafterBase).bind ?_
  rintro ⟨mixins, afterMixins, hmixins⟩ ⟨_, otherMixins, _⟩ ⟨⟨⟩, hafterMixins⟩
  refine (hafterMixins.expect .leftBracket).bind ?_
  rintro ⟨_, afterOpening, hopening⟩ ⟨_, otherOpening, _⟩ ⟨-, hafterOpening⟩
  refine (classFields_alike hafterOpening).bind ?_
  rintro ⟨fields, afterFields, hfields⟩ ⟨_, otherFields, _⟩ ⟨⟨⟩, hafterFields⟩
  refine (hafterFields.expect .semicolon).bind ?_
  rintro ⟨_, after, hafter⟩ ⟨_, otherAfter, _⟩ ⟨-, hafterEnd⟩
  exact .ok ⟨by simp only [hafterEnd.previous], hafterEnd⟩

mutual

theorem group_alike {cursor other : Cursor} (h : cursor.Together tokens other) :
    ParsedAlike tokens (group cursor) (group other) := by
  rw [group, group]
  refine (h.expect .leftBracket).bind ?_
  rintro ⟨_, afterOpening, hopening⟩ ⟨_, otherOpening, _⟩ ⟨-, hafterOpening⟩
  refine (entries_alike 0 hafterOpening).bind ?_
  rintro ⟨leaves, after, hafter⟩ ⟨_, otherAfter, _⟩ ⟨⟨⟩, hafterEnd⟩
  exact .ok ⟨rfl, hafterEnd⟩
termination_by 4 * cursor.tokens.length

theorem nestedGroup_alike (segment : String) {cursor other : Cursor}
    (h : cursor.Together tokens other) :
    ParsedAlike tokens (nestedGroup segment cursor) (nestedGroup segment other) := by
  rw [nestedGroup, nestedGroup]
  refine (group_alike h).bind ?_
  rintro ⟨leaves, afterGroup, hgroup⟩ ⟨_, otherGroup, _⟩ ⟨⟨⟩, hafterGroup⟩
  exact .ok ⟨rfl, (hafterGroup.eat .semicolon).2⟩
termination_by 4 * cursor.tokens.length + 1

theorem keyedEntry_alike (key : String) {cursor other : Cursor}
    (h : cursor.Together tokens other) :
    ParsedAlike tokens (keyedEntry key cursor) (keyedEntry key other) := by
  rw [keyedEntry.eq_def, keyedEntry.eq_def, h.kind]
  split
  · refine (h.expectAs .ident _).bind ?_
    rintro ⟨name, afterName, hname⟩ ⟨_, otherName, _⟩ ⟨⟨⟩, hafterName⟩
    refine (hafterName.expect .semicolon).bind ?_
    rintro ⟨_, after, hafter⟩ ⟨_, otherAfter, _⟩ ⟨-, hafterEnd⟩
    exact .ok ⟨rfl, hafterEnd⟩
  · exact nestedGroup_alike key h
  · exact h.unexpected _
termination_by 4 * cursor.tokens.length + 2

/-- The entries of a pattern keep step, whatever place the first of them has.
Groups in groups are what makes this an induction. -/
theorem entries_alike (place : Nat) {cursor other : Cursor} (h : cursor.Together tokens other) :
    ParsedAlike tokens (entries place cursor) (entries place other) := by
  rw [entries.eq_def, entries.eq_def]
  rcases h.take? .rightBracket with ⟨hnone, hother⟩ |
    ⟨closing, after, otherAfter, _, _, htake, hother, -, hafter⟩
  · rw [hnone, hother]
    dsimp only
    rcases h.next? with ⟨hnone, hother⟩ |
      ⟨token, after, otherAfter, hless, _, hnext, hother, -, hafter⟩
    · rw [hnone, hother]
      exact h.unexpected _
    · rw [hnext, hother]
      dsimp only
      have hend := (after.eat .semicolon).noLonger
      obtain ⟨hsame, hafterEnd⟩ := hafter.eat .semicolon
      split
      · rcases hafter.take? .arrow with ⟨hnone, hother⟩ |
          ⟨arrow, afterArrow, otherArrow, harrow, _, htake, hother, -, hafterArrow⟩
        · rw [hnone, hother]
          dsimp only
          rw [hsame, hafter.kind]
          split
          · exact hafter.unexpected _
          · refine (entries_alike (place + 1) hafterEnd).bind ?_
            rintro ⟨rest, afterRest, hrest⟩ ⟨_, otherRest, _⟩ ⟨⟨⟩, hafterRest⟩
            exact .ok ⟨rfl, hafterRest⟩
        · rw [htake, hother]
          refine (keyedEntry_alike token.text hafterArrow).bind ?_
          rintro ⟨leaves, afterEntry, hentry⟩ ⟨_, otherEntry, _⟩ ⟨⟨⟩, hafterEntry⟩
          refine (entries_alike place hafterEntry).bind ?_
          rintro ⟨rest, afterRest, hrest⟩ ⟨_, otherRest, _⟩ ⟨⟨⟩, hafterRest⟩
          exact .ok ⟨rfl, hafterRest⟩
      · refine (nestedGroup_alike (toString place) h).bind ?_
        rintro ⟨leaves, afterGroup, hgroup⟩ ⟨_, otherGroup, _⟩ ⟨⟨⟩, hafterGroup⟩
        refine (entries_alike (place + 1) hafterGroup).bind ?_
        rintro ⟨rest, afterRest, hrest⟩ ⟨_, otherRest, _⟩ ⟨⟨⟩, hafterRest⟩
        exact .ok ⟨rfl, hafterRest⟩
      · refine (entries_alike (place + 1) hafter).bind ?_
        rintro ⟨rest, afterRest, hrest⟩ ⟨_, otherRest, _⟩ ⟨⟨⟩, hafterRest⟩
        exact .ok ⟨rfl, hafterRest⟩
      · rw [hsame, hafter.kind]
        split
        · exact hafter.unexpected _
        · refine (entries_alike (place + 1) hafterEnd).bind ?_
          rintro ⟨rest, afterRest, hrest⟩ ⟨_, otherRest, _⟩ ⟨⟨⟩, hafterRest⟩
          exact .ok ⟨rfl, hafterRest⟩
      · exact h.unexpected _
  · rw [htake, hother]
    exact .ok ⟨rfl, hafter⟩
termination_by 4 * cursor.tokens.length + 3

end

theorem pattern_alike (h : cursor.Together tokens other) :
    ParsedAlike tokens (pattern cursor) (pattern other) := by
  rw [pattern, pattern]
  refine Agree.inContext ((group_alike h).bind ?_)
  rintro ⟨leaves, after, hafter⟩ ⟨_, otherAfter, _⟩ ⟨⟨⟩, hafterGroup⟩
  exact .ok ⟨rfl, hafterGroup⟩

theorem binding_alike (h : cursor.Together tokens other) :
    ParsedAlike tokens (binding cursor) (binding other) := by
  rw [binding.eq_def, binding.eq_def, h.kind]
  split
  · refine (h.expectAs .ident _).bind ?_
    rintro ⟨name, after, hafter⟩ ⟨_, otherAfter, _⟩ ⟨⟨⟩, hafterName⟩
    exact .ok ⟨rfl, hafterName⟩
  · exact pattern_alike h
  · exact h.unexpected _

theorem fileRef_alike (expected : String) (h : cursor.Together tokens other) :
    ParsedAlike tokens (fileRef workspace expected cursor) (fileRef workspace expected other) := by
  rw [fileRef, fileRef]
  refine (h.expectToken .file expected).bind ?_
  rintro ⟨token, after, hafter⟩ ⟨_, otherAfter, _⟩ ⟨⟨⟩, hafterToken, htoken⟩
  dsimp only
  split
  · exact .ok ⟨rfl, hafterToken⟩
  · exact .atToken htoken _

/-- An import keeps step. Its two forms are told apart by the token behind the
first word, which is the same at both cursors. -/
theorem importStatement_alike (h : cursor.Together tokens other) :
    ParsedAlike tokens (importStatement workspace cursor) (importStatement workspace other) := by
  rw [importStatement, importStatement, h.current]
  refine Agree.inContext ((h.expect .importWord).bind ?_)
  rintro mark same ⟨-, hmark⟩
  rw [hmark.kind]
  split
  · refine (Parsed.thenRead_alike (pattern_alike hmark)).bind ?_
    rintro binding sameBinding ⟨hbinding, hafterBinding⟩
    refine (Parsed.thenRead_alike (hafterBinding.expectAs ..)).bind ?_
    rintro fromWord sameFrom ⟨-, hfrom⟩
    refine (Parsed.thenRead_alike (fileRef_alike _ hfrom)).bind ?_
    rintro source sameSource ⟨hsource, hafterSource⟩
    refine (Parsed.thenRead_alike (hafterSource.expect _)).bind ?_
    rintro finish sameFinish ⟨-, hfinish⟩
    exact .ok ⟨by simp only [hbinding, hsource, hfinish.previous], hfinish⟩
  · refine (Parsed.thenRead_alike (fileRef_alike _ hmark)).bind ?_
    rintro source sameSource ⟨hsource, hafterSource⟩
    refine (Parsed.thenRead_alike (hafterSource.expect _)).bind ?_
    rintro asWord sameAs ⟨-, has⟩
    refine (Parsed.thenRead_alike (binding_alike has)).bind ?_
    rintro binding sameBinding ⟨hbinding, hafterBinding⟩
    refine (Parsed.thenRead_alike (hafterBinding.expect _)).bind ?_
    rintro finish sameFinish ⟨-, hfinish⟩
    exact .ok ⟨by simp only [hbinding, hsource, hfinish.previous], hfinish⟩

theorem usedValue_alike (h : cursor.Together tokens other) :
    ParsedAlike tokens (usedValue workspace cursor) (usedValue workspace other) := by
  rw [usedValue, usedValue, h.kind]
  split
  · exact operand_alike h
  · exact expr_alike h

theorem useStatement_alike (h : cursor.Together tokens other) :
    ParsedAlike tokens (useStatement workspace cursor) (useStatement workspace other) := by
  rw [useStatement, useStatement, h.current]
  refine Agree.inContext ((h.expect .useWord).bind ?_)
  rintro mark same ⟨-, hmark⟩
  have hopens : same.after.kind = .leftBracket ∧ opensPattern same.after.nextKind ↔
      mark.after.kind = .leftBracket ∧ opensPattern mark.after.nextKind := by
    rw [hmark.kind]
    refine and_congr_right fun hbracket => ?_
    rw [hmark.nextKind (by rw [hbracket]; nofun)]
  simp only [hopens]
  split
  · refine (Parsed.thenRead_alike (pattern_alike hmark)).bind ?_
    rintro binding sameBinding ⟨hbinding, hafterBinding⟩
    rw [hafterBinding.kind]
    split
    · exact hafterBinding.atCurrent _
    · refine (Parsed.thenRead_alike (hafterBinding.expectAs ..)).bind ?_
      rintro fromWord sameFrom ⟨-, hfrom⟩
      refine (Parsed.thenRead_alike (expr_alike hfrom)).bind ?_
      rintro value sameValue ⟨hvalue, hafterValue⟩
      refine (Parsed.thenRead_alike (hafterValue.expect _)).bind ?_
      rintro finish sameFinish ⟨-, hfinish⟩
      exact .ok ⟨by simp only [Parsed.map, hbinding, hvalue, hfinish.previous], hfinish⟩
  · refine (Parsed.thenRead_alike (usedValue_alike hmark)).bind ?_
    rintro value sameValue ⟨hvalue, hafterValue⟩
    refine (Parsed.thenRead_alike (hafterValue.expect _)).bind ?_
    rintro asWord sameAs ⟨-, has⟩
    refine (Parsed.thenRead_alike (binding_alike has)).bind ?_
    rintro binding sameBinding ⟨hbinding, hafterBinding⟩
    refine (Parsed.thenRead_alike (hafterBinding.expect _)).bind ?_
    rintro finish sameFinish ⟨-, hfinish⟩
    exact .ok ⟨by simp only [Parsed.map, hbinding, hvalue, hfinish.previous], hfinish⟩

/-- The export is read alike, and what follows it is looked at once: only the end
of the input may stand there, at either cursor. -/
theorem exportStatement_alike (h : cursor.Together tokens other) :
    Agree (upToEnd tokens) Eq (exportStatement workspace cursor)
      (exportStatement workspace other) := by
  let read (cursor : Cursor) : Except ParseError (Parsed Expr cursor) :=
    inContext .exportStatement do
      let mark ← cursor.expect .exportWord
      let body ← mark.thenRead (expr workspace)
      let finish ← body.thenRead (·.expect .semicolon)
      return finish.map fun _ => body.value
  rw [exportStatement, exportStatement]
  have hstatement : ParsedAlike tokens (read cursor) (read other) := by
    refine Agree.inContext ((h.expect .exportWord).bind ?_)
    rintro mark same ⟨-, hmark⟩
    refine (Parsed.thenRead_alike (expr_alike hmark)).bind ?_
    rintro body sameBody ⟨hbody, hafterBody⟩
    refine (Parsed.thenRead_alike (hafterBody.expect _)).bind ?_
    rintro finish sameFinish ⟨-, hfinish⟩
    exact .ok ⟨hbody, hfinish⟩
  refine hstatement.bind ?_
  rintro ⟨body, after, _⟩ ⟨_, otherAfter, _⟩ ⟨⟨⟩, hafter⟩
  dsimp only
  rw [hafter.kind]
  split
  · exact .ok rfl
  · rw [hafter.current]
    exact .atToken hafter.current_mem _

/-- All statements keep step up to the export. Loose expressions and
declarations are told apart by the current token, on which the cursors agree. -/
theorem statements_alike {cursor other : Cursor} (h : cursor.Together tokens other) :
    Agree (upToEnd tokens) Eq (statements workspace cursor) (statements workspace other) := by
  rw [statements.eq_def, statements.eq_def, h.kind, h.current]
  split
  · refine (importStatement_alike h).bind ?_
    rintro ⟨first, after, hafter⟩ ⟨_, otherAfter, _⟩ ⟨⟨⟩, hafterFirst⟩
    refine (statements_alike hafterFirst).bind ?_
    rintro rest _ rfl
    exact .ok rfl
  · refine (useStatement_alike h).bind ?_
    rintro ⟨first, after, hafter⟩ ⟨_, otherAfter, _⟩ ⟨⟨⟩, hafterFirst⟩
    refine (statements_alike hafterFirst).bind ?_
    rintro rest _ rfl
    exact .ok rfl
  · refine (classDecl_alike h).bind ?_
    rintro ⟨first, after, hafter⟩ ⟨_, otherAfter, _⟩ ⟨⟨⟩, hafterFirst⟩
    refine (statements_alike hafterFirst).bind ?_
    rintro rest _ rfl
    exact .ok rfl
  · refine (exportStatement_alike h).bind ?_
    rintro body _ rfl
    exact .ok rfl
  · exact .atToken h.current_mem _
  · split
    · refine (expr_alike h).bind ?_
      rintro ⟨value, afterValue, hvalue⟩ ⟨_, otherValue, _⟩ ⟨-, hafterValue⟩
      refine (hafterValue.expect .semicolon).bind ?_
      rintro ⟨_, after, hafter⟩ ⟨_, otherAfter, _⟩ ⟨-, hafterEnd⟩
      exact statements_alike hafterEnd
    · exact .atToken h.current_mem _
termination_by cursor.tokens.length

end Parser

variable {workspace : Workspace}

/-- Lists with the same tokens up to the first end form the same module, or are
refused with the same error at one of those tokens. -/
theorem Module.ofTokens_alike {others : List Token} (h : upToEnd others = upToEnd tokens) :
    Agree (upToEnd tokens) Eq (Module.ofTokens workspace tokens)
      (Module.ofTokens workspace others) :=
  Parser.statements_alike ⟨h, rfl, [], .refl _⟩

/-- Nothing behind the first end of the input makes a difference to the
outcome. -/
theorem Module.ofTokens_congr {others : List Token} (h : upToEnd others = upToEnd tokens) :
    Module.ofTokens workspace others = Module.ofTokens workspace tokens :=
  (Module.ofTokens_alike h).eq.symm

/-- Tokens that form no module are refused at one of them, or at the end behind
them. -/
theorem Module.ofTokens_error {error : ParseError}
    (h : Module.ofTokens workspace tokens = .error error) :
    error.AtOneOf (upToEnd tokens) := by
  have halike : Agree (upToEnd tokens) Eq (Module.ofTokens workspace tokens)
      (Module.ofTokens workspace tokens) := Module.ofTokens_alike rfl
  rw [h] at halike
  exact halike.atOneOf

end ConfigNotation
