import ConfigNotation.Syntax.Literal
import ConfigNotation.Text.Split

/-!
Reading expressions. A conditional takes one operand on each side of its mark,
and the first key of a container fixes its kind.
-/

namespace ConfigNotation.Parser

def keyKind (kind : TokenKind) : ContainerKind :=
  if kind = .assocKey then .object else .array

def keyName (token : Token) : String := String.ofList (Text.dropLeading '@' token.text.toList)

def keyedMember (token : Token) (value : Expr) : Member Expr :=
  if token.kind = .assocKey then .property (keyName token) value else .element value

def pathSegments (token : Token) : List String :=
  (Text.splitOn '.' token.text.toList).map String.ofList

mutual

/-- One operand, or two with a question mark between them. -/
def expr (workspace : Workspace) (cursor : Cursor) : Except ParseError (Parsed Expr cursor) := do
  let ⟨left, afterLeft, hleft⟩ ← operand workspace cursor
  match afterLeft.take? .question with
  | none => return ⟨left, afterLeft, hleft⟩
  | some ⟨_, afterMark, hmark⟩ =>
      let ⟨right, afterRight, hright⟩ ← operand workspace afterMark
      return ⟨.conditional (left.span.merge right.span) left right, afterRight, by omega⟩
termination_by 4 * cursor.tokens.length + 2

/-- A container, a literal, a path or a name. A name before a parenthesis is a
call, before a bracket an instance. -/
def operand (workspace : Workspace) (cursor : Cursor) :
    Except ParseError (Parsed Expr cursor) :=
  match cursor.next? with
  | none => .error (cursor.unexpected "a value")
  | some ⟨token, after, hafter⟩ =>
      match token.kind with
      | .leftBracket => do
          let ⟨body, afterBody, hbody⟩ ← container workspace cursor
          return ⟨.container (token.span.merge afterBody.previous) body, afterBody, hbody⟩
      | .path => .ok ⟨.path token.span (pathSegments token), after, hafter⟩
      | .ident =>
          match after.kind with
          | .leftParen => do
              let ⟨arguments, afterCall, hcall⟩ ←
                inContext .arguments (callArguments workspace after)
              let span := token.span.merge afterCall.previous
              return ⟨.call span token.text arguments, afterCall, by omega⟩
          | .leftBracket => do
              let ⟨body, afterBody, hbody⟩ ← container workspace after
              let span := token.span.merge afterBody.previous
              return ⟨.classInstance span token.text body, afterBody, by omega⟩
          | _ => .ok ⟨.ident token.span token.text, after, hafter⟩
      | kind =>
          if kind.isLiteral then
            match Literal.ofToken workspace token with
            | .ok value => .ok ⟨.literal token.span value, after, hafter⟩
            | .error fault => .error (.atToken fault token)
          else .error (cursor.unexpected "a value")
termination_by 4 * cursor.tokens.length + 1

def container (workspace : Workspace) (cursor : Cursor) :
    Except ParseError (Parsed (Container Expr) cursor) :=
  inContext .container do
    let ⟨_, afterOpening, hopening⟩ ← cursor.expect .leftBracket
    let ⟨body, afterBody, hbody⟩ ← members workspace .unknown afterOpening
    return ⟨body, afterBody, by omega⟩
termination_by 4 * cursor.tokens.length

/-- Members up to the closing bracket. `kind` is what the keys before fixed. -/
def members (workspace : Workspace) (kind : ContainerKind) (cursor : Cursor) :
    Except ParseError (Parsed (Container Expr) cursor) :=
  match cursor.take? .rightBracket with
  | some ⟨_, after, hafter⟩ => .ok ⟨⟨kind, []⟩, after, hafter⟩
  | none =>
      match cursor.next? with
      | none => .error (cursor.unexpected "\"@key\", \"@*\" or \"...\"")
      | some ⟨token, after, hafter⟩ =>
          match token.kind with
          | .spread => do
              let ⟨value, afterValue, hvalue⟩ ← expr workspace after
              let ⟨_, afterEnd, hend⟩ ← afterValue.expect .semicolon
              let ⟨rest, afterRest, hrest⟩ ← members workspace kind afterEnd
              return ⟨⟨rest.kind, .spread value :: rest.members⟩, afterRest, by omega⟩
          | .assocKey | .numericKey =>
              let wanted := keyKind token.kind
              if kind ≠ .unknown ∧ kind ≠ wanted then .error (.atToken .mixedKeys token)
              else do
                let ⟨_, afterArrow, harrow⟩ ← after.expect .arrow
                let ⟨value, afterValue, hvalue⟩ ← expr workspace afterArrow
                let ⟨_, afterEnd, hend⟩ ← afterValue.expect .semicolon
                let ⟨rest, afterRest, hrest⟩ ← members workspace wanted afterEnd
                let member := keyedMember token value
                return ⟨⟨rest.kind, member :: rest.members⟩, afterRest, by omega⟩
          | _ => .error (cursor.unexpected "\"@key\", \"@*\" or \"...\"")
termination_by 4 * cursor.tokens.length + 3

def callArguments (workspace : Workspace) (cursor : Cursor) :
    Except ParseError (Parsed (List (Argument Expr)) cursor) := do
  let ⟨_, afterOpening, hopening⟩ ← cursor.expect .leftParen
  let ⟨arguments, after, hafter⟩ ← argumentsUpToEnd workspace afterOpening
  return ⟨arguments, after, by omega⟩
termination_by 4 * cursor.tokens.length

/-- Arguments up to the closing parenthesis, with commas between them. -/
def argumentsUpToEnd (workspace : Workspace) (cursor : Cursor) :
    Except ParseError (Parsed (List (Argument Expr)) cursor) :=
  match cursor.take? .rightParen with
  | some ⟨_, after, hafter⟩ => .ok ⟨[], after, hafter⟩
  | none => do
      let ⟨isSpread, afterMark, hmark⟩ := cursor.eat .spread
      let ⟨value, afterValue, hvalue⟩ ← expr workspace afterMark
      let ⟨hasComma, afterComma, hcomma⟩ := afterValue.eat .comma
      if !hasComma && afterValue.kind != .rightParen then
        throw (afterValue.unexpected "\",\" or \")\" in the argument list")
      let ⟨rest, afterRest, hrest⟩ ← argumentsUpToEnd workspace afterComma
      return ⟨⟨isSpread, value⟩ :: rest, afterRest,
        Cursor.shorter_of_item hmark hvalue hcomma hrest⟩
termination_by 4 * cursor.tokens.length + 3

end

end ConfigNotation.Parser
