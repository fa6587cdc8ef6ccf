import ConfigNotation.Syntax.Parser.Binding
import ConfigNotation.Syntax.Parser.Class

/-!
Reading statements and whole modules. The export statement is the last one, and
a loose expression is read and forgotten.
-/

namespace ConfigNotation

namespace Parser

def fileRef (workspace : Workspace) (expected : String) (cursor : Cursor) :
    Except ParseError (Parsed FileRef cursor) := do
  let ⟨token, after, hafter⟩ ← cursor.expectAs .file expected
  match Literal.readFile workspace token.text.toList with
  | .ok file => return ⟨file, after, hafter⟩
  | .error fault => throw (.atToken fault token)

/-- An import, with its binding before or behind the file. -/
def importStatement (workspace : Workspace) (cursor : Cursor) :
    Except ParseError (Parsed Import cursor) :=
  inContext .importStatement do
    let mark ← cursor.expect .importWord
    if mark.after.kind = .leftBracket then
      let binding ← mark.thenRead pattern
      let fromWord ← binding.thenRead (·.expectAs .fromWord "\"from\" after the bindings")
      let source ← fromWord.thenRead (fileRef workspace "a file literal after \"from\"")
      let finish ← source.thenRead (·.expect .semicolon)
      let span := cursor.current.span.merge finish.after.previous
      return finish.map fun _ => ⟨source.value, binding.value, span⟩
    else
      let source ← mark.thenRead (fileRef workspace "a file literal")
      let asWord ← source.thenRead (·.expect .asWord)
      let binding ← asWord.thenRead binding
      let finish ← binding.thenRead (·.expect .semicolon)
      let span := cursor.current.span.merge finish.after.previous
      return finish.map fun _ => ⟨source.value, binding.value, span⟩

/-- Whether a bracket before a token of this kind opens a pattern rather than a
value. -/
def opensPattern : TokenKind → Bool
  | .ident | .leftBracket | .semicolon | .skipWord => true
  | _ => false

/-- The value before `as`. One that starts with a name is a single operand. -/
def usedValue (workspace : Workspace) (cursor : Cursor) :
    Except ParseError (Parsed Expr cursor) :=
  if cursor.kind = .ident then operand workspace cursor else expr workspace cursor

def useStatement (workspace : Workspace) (cursor : Cursor) :
    Except ParseError (Parsed Use cursor) :=
  inContext .useStatement do
    let mark ← cursor.expect .useWord
    if mark.after.kind = .leftBracket ∧ opensPattern mark.after.nextKind then
      let binding ← mark.thenRead pattern
      if binding.after.kind = .asWord then
        throw (.atToken .destructuringWithAs binding.after.current)
      let fromWord ← binding.thenRead (·.expectAs .fromWord "\"from\" after the bindings")
      let value ← fromWord.thenRead (expr workspace)
      let finish ← value.thenRead (·.expect .semicolon)
      let span := cursor.current.span.merge finish.after.previous
      return finish.map fun _ => ⟨value.value, binding.value, span⟩
    else
      let value ← mark.thenRead (usedValue workspace)
      let asWord ← value.thenRead (·.expect .asWord)
      let binding ← asWord.thenRead binding
      let finish ← binding.thenRead (·.expect .semicolon)
      let span := cursor.current.span.merge finish.after.previous
      return finish.map fun _ => ⟨value.value, binding.value, span⟩

/-- The exported expression. Nothing may follow it. -/
def exportStatement (workspace : Workspace) (cursor : Cursor) : Except ParseError Expr := do
  let statement ← inContext .exportStatement do
    let mark ← cursor.expect .exportWord
    let body ← mark.thenRead (expr workspace)
    let finish ← body.thenRead (·.expect .semicolon)
    return finish.map fun _ => body.value
  let after := statement.after
  if after.kind = .endOfInput then return statement.value
  else throw (.atToken (.trailingInput after.current.describe) after.current)

def startsValue : TokenKind → Bool
  | .leftBracket | .path | .ident => true
  | kind => kind.isLiteral

/-- Statements up to the export statement. -/
def statements (workspace : Workspace) (cursor : Cursor) : Except ParseError Module :=
  match cursor.kind with
  | .importWord => do
      let ⟨first, after, _hafter⟩ ← importStatement workspace cursor
      let rest ← statements workspace after
      return { rest with imports := first :: rest.imports }
  | .useWord => do
      let ⟨first, after, _hafter⟩ ← useStatement workspace cursor
      let rest ← statements workspace after
      return { rest with uses := first :: rest.uses }
  | .classWord => do
      let ⟨first, after, _hafter⟩ ← classDecl workspace cursor
      let rest ← statements workspace after
      return { rest with classes := first :: rest.classes }
  | .exportWord => do
      let body ← exportStatement workspace cursor
      return ⟨[], [], [], body⟩
  | .endOfInput => .error (.atToken .missingExport cursor.current)
  | kind =>
      if startsValue kind then do
        let ⟨_, afterValue, _hvalue⟩ ← expr workspace cursor
        let ⟨_, after, _hafter⟩ ← afterValue.expect .semicolon
        statements workspace after
      else .error (.atToken (.invalidStatement cursor.current.describe) cursor.current)
termination_by cursor.tokens.length

end Parser

def Module.ofTokens (workspace : Workspace) (tokens : List Token) : Except ParseError Module :=
  Parser.statements workspace (.start tokens)

end ConfigNotation
