import ConfigNotation.Syntax.Error

/-!
A place in a list of tokens. Whatever reads from a cursor gives the cursor
behind it together with the fact that fewer tokens are left, so that readers
which call each other come to an end.
-/

namespace ConfigNotation

/-- The tokens that are left, and the span of the last one that was taken. -/
structure Cursor where
  tokens : List Token
  previous : Span
  deriving DecidableEq, Repr

structure Parsed (α : Type) (before : Cursor) where
  value : α
  after : Cursor
  shorter : after.tokens.length < before.tokens.length

/-- What was found at a cursor, perhaps without taking a token. -/
structure Found (α : Type) (before : Cursor) where
  value : α
  after : Cursor
  noLonger : after.tokens.length ≤ before.tokens.length

/-- What is found without taking a token. -/
def Found.here {α : Type} (value : α) (cursor : Cursor) : Found α cursor :=
  ⟨value, cursor, Nat.le_refl _⟩

namespace Parsed

variable {α β : Type} {before : Cursor}

theorem noLonger (parsed : Parsed α before) :
    parsed.after.tokens.length ≤ before.tokens.length := Nat.le_of_lt parsed.shorter

def found (parsed : Parsed α before) : Found α before :=
  ⟨parsed.value, parsed.after, parsed.noLonger⟩

def map (f : α → β) (parsed : Parsed α before) : Parsed β before :=
  ⟨f parsed.value, parsed.after, parsed.shorter⟩

def thenRead (parsed : Parsed α before)
    (read : (cursor : Cursor) → Except ParseError (Parsed β cursor)) :
    Except ParseError (Parsed β before) := do
  let next ← read parsed.after
  return ⟨next.value, next.after, Nat.lt_trans next.shorter parsed.shorter⟩

end Parsed

namespace Token

/-- The token that stands behind the last one of a list. -/
def missing : Token := ⟨.endOfInput, "", .empty, .start⟩

def describe (token : Token) : String :=
  if token.kind = .endOfInput then "end of input" else s!"\"{token.text}\""

end Token

namespace Cursor

def start (tokens : List Token) : Cursor := ⟨tokens, .empty⟩

def current (cursor : Cursor) : Token := cursor.tokens.head?.getD .missing

def kind (cursor : Cursor) : TokenKind := cursor.current.kind

/-- The kind of the token behind the current one. -/
def nextKind (cursor : Cursor) : TokenKind := (cursor.tokens[1]?.getD Token.missing).kind

def unexpected (cursor : Cursor) (expected : String) : ParseError :=
  let token := cursor.current
  .atToken
    (if token.kind = .endOfInput then .unexpectedEnd expected
     else .unexpectedToken expected token.describe)
    token

/-- Takes the current token, unless it is the end of the input. -/
def next? (cursor : Cursor) : Option (Parsed Token cursor) :=
  match htokens : cursor.tokens with
  | [] => none
  | token :: rest =>
      if token.kind = .endOfInput then none
      else some ⟨token, ⟨rest, token.span⟩, by simp [htokens]⟩

def take? (cursor : Cursor) (kind : TokenKind) : Option (Parsed Token cursor) :=
  cursor.next?.filter fun token => token.value.kind = kind

def eat (cursor : Cursor) (kind : TokenKind) : Found Bool cursor :=
  match cursor.take? kind with
  | some token => (token.map fun _ => true).found
  | none => .here false cursor

/-- Takes a token of a kind, or fails with what was expected instead. -/
def expectAs (cursor : Cursor) (kind : TokenKind) (expected : String) :
    Except ParseError (Parsed Token cursor) :=
  match cursor.take? kind with
  | some token => .ok token
  | none => .error (cursor.unexpected expected)

def expect (cursor : Cursor) (kind : TokenKind) : Except ParseError (Parsed Token cursor) :=
  cursor.expectAs kind s!"\"{kind.displayName}\""

/-- No more tokens are left behind what follows a token. -/
theorem noLonger_of_shorter {start next finish : Cursor}
    (hnext : next.tokens.length < start.tokens.length)
    (hfinish : finish.tokens.length ≤ next.tokens.length) :
    finish.tokens.length ≤ start.tokens.length := by omega

/-- Fewer tokens are left behind an item of a list: a mark before it that may
be missing, the item, a separator that may be missing, and the items that
follow. -/
theorem shorter_of_item {start item separator next finish : Cursor}
    (hmark : item.tokens.length ≤ start.tokens.length)
    (hitem : separator.tokens.length < item.tokens.length)
    (hseparator : next.tokens.length ≤ separator.tokens.length)
    (hnext : finish.tokens.length < next.tokens.length) :
    finish.tokens.length < start.tokens.length := by omega

end Cursor

end ConfigNotation
