import ConfigNotation.Syntax.Module
import ConfigNotation.Syntax.Cursor

/-!
Reading the left side of a binding: a name, or a pattern that takes a value
apart. Places count from zero within each bracketed group; a keyed entry takes
no place.
-/

namespace ConfigNotation

/-- A leaf as it is reached from one level further out. -/
def Leaf.under (segment : String) (leaf : Leaf) : Leaf :=
  { leaf with path := segment :: leaf.path }

namespace Parser

mutual

def group (cursor : Cursor) : Except ParseError (Parsed (List Leaf) cursor) := do
  let ⟨_, afterOpening, hopening⟩ ← cursor.expect .leftBracket
  let ⟨leaves, after, hafter⟩ ← entries 0 afterOpening
  return ⟨leaves, after, by omega⟩
termination_by 4 * cursor.tokens.length

def nestedGroup (segment : String) (cursor : Cursor) :
    Except ParseError (Parsed (List Leaf) cursor) := do
  let ⟨leaves, afterGroup, hgroup⟩ ← group cursor
  let ⟨_, after, hafter⟩ := afterGroup.eat .semicolon
  return ⟨leaves.map (.under segment), after, by omega⟩
termination_by 4 * cursor.tokens.length + 1

/-- What stands behind a key and its arrow: a name, or a group for the value. -/
def keyedEntry (key : String) (cursor : Cursor) :
    Except ParseError (Parsed (List Leaf) cursor) :=
  match cursor.kind with
  | .ident => do
      let ⟨name, afterName, hname⟩ ← cursor.expectAs .ident "an alias"
      let ⟨_, after, hafter⟩ ← afterName.expect .semicolon
      return ⟨[⟨[key], name.text⟩], after, by omega⟩
  | .leftBracket => nestedGroup key cursor
  | _ => .error (cursor.unexpected "an alias or \"[\" after \"=>\"")
termination_by 4 * cursor.tokens.length + 2

/-- Entries up to the closing bracket. `place` is the place of the next one. -/
def entries (place : Nat) (cursor : Cursor) : Except ParseError (Parsed (List Leaf) cursor) :=
  match cursor.take? .rightBracket with
  | some ⟨_, after, hafter⟩ => .ok ⟨[], after, hafter⟩
  | none =>
      match cursor.next? with
      | none => .error (cursor.unexpected "a name, \"[\", \"skip\" or \";\" in the pattern")
      | some ⟨token, after, hafter⟩ =>
          match token.kind with
          | .ident =>
              match after.take? .arrow with
              | some ⟨_, afterArrow, harrow⟩ => do
                  let ⟨leaves, afterEntry, hentry⟩ ← keyedEntry token.text afterArrow
                  let ⟨rest, afterRest, hrest⟩ ← entries place afterEntry
                  return ⟨leaves ++ rest, afterRest, by omega⟩
              | none => do
                  let ⟨hasEnd, afterEnd, hend⟩ := after.eat .semicolon
                  if !hasEnd && after.kind != .rightBracket then
                    throw (after.unexpected "\"=>\", \";\" or \"]\" after the name")
                  let ⟨rest, afterRest, hrest⟩ ← entries (place + 1) afterEnd
                  return ⟨⟨[toString place], token.text⟩ :: rest, afterRest, by omega⟩
          | .leftBracket => do
              let ⟨leaves, afterGroup, hgroup⟩ ← nestedGroup (toString place) cursor
              let ⟨rest, afterRest, hrest⟩ ← entries (place + 1) afterGroup
              return ⟨leaves ++ rest, afterRest, by omega⟩
          | .semicolon => do
              let ⟨rest, afterRest, hrest⟩ ← entries (place + 1) after
              return ⟨rest, afterRest, by omega⟩
          | .skipWord => do
              let ⟨hasEnd, afterEnd, hend⟩ := after.eat .semicolon
              if !hasEnd && after.kind != .rightBracket then
                throw (after.unexpected s!"\"{TokenKind.semicolon.displayName}\"")
              let ⟨rest, afterRest, hrest⟩ ← entries (place + 1) afterEnd
              return ⟨rest, afterRest, by omega⟩
          | _ => .error (cursor.unexpected "a name, \"[\", \"skip\" or \";\" in the pattern")
termination_by 4 * cursor.tokens.length + 3

end

def pattern (cursor : Cursor) : Except ParseError (Parsed Binding cursor) :=
  inContext .destructuring do
    let ⟨leaves, after, hafter⟩ ← group cursor
    return ⟨.pattern leaves, after, hafter⟩

def binding (cursor : Cursor) : Except ParseError (Parsed Binding cursor) :=
  match cursor.kind with
  | .ident => do
      let ⟨name, after, hafter⟩ ← cursor.expectAs .ident "a binding name"
      return ⟨.name name.text, after, hafter⟩
  | .leftBracket => pattern cursor
  | _ => .error (cursor.unexpected "an identifier or \"[\"")

end Parser

end ConfigNotation
