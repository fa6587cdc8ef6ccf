import ConfigNotation.Syntax.Parser.Type

/-!
Reading class declarations.
-/

namespace ConfigNotation.Parser

/-- Parameters up to the closing parenthesis, with commas between them. Nothing
may follow a rest parameter; `last` is the parameter before. -/
def parametersUpToEnd (last : Option Parameter) (cursor : Cursor) :
    Except ParseError (Parsed (List Parameter) cursor) :=
  match cursor.take? .rightParen with
  | some ⟨_, after, hafter⟩ => .ok ⟨[], after, hafter⟩
  | none =>
      match last.filter (·.isRest) with
      | some rest => .error (.atToken (.restNotLast rest.name) cursor.current)
      | none => do
          let ⟨isRest, afterMark, hmark⟩ := cursor.eat .spread
          let ⟨name, afterName, hname⟩ ← afterMark.expectAs .ident "a parameter name"
          let parameter : Parameter := ⟨name.text, isRest⟩
          let ⟨hasComma, afterComma, hcomma⟩ := afterName.eat .comma
          if !hasComma && afterName.kind != .rightParen then
            throw (afterName.unexpected "\",\" or \")\" in the parameter list")
          let ⟨rest, afterRest, hrest⟩ ← parametersUpToEnd (some parameter) afterComma
          return ⟨parameter :: rest, afterRest, Cursor.shorter_of_item hmark hname hcomma hrest⟩
termination_by cursor.tokens.length

def parameters (cursor : Cursor) : Except ParseError (Found (List Parameter) cursor) :=
  match cursor.take? .leftParen with
  | none => .ok (.here [] cursor)
  | some opening =>
      inContext .classParameters do
        return (← opening.thenRead (parametersUpToEnd none)).found

def baseClass (cursor : Cursor) : Except ParseError (Found (Option String) cursor) :=
  match cursor.take? .extendsWord with
  | none => .ok (.here none cursor)
  | some mark => do
      let name ← mark.thenRead (·.expectAs .ident "a base class name")
      return (name.map fun token => some token.text).found

/-- Names up to the first token that is none. -/
def names (cursor : Cursor) : Found (List String) cursor :=
  match cursor.take? .ident with
  | none => .here [] cursor
  | some ⟨name, afterName, hname⟩ =>
      let ⟨rest, after, hafter⟩ := names afterName
      ⟨name.text :: rest, after, Cursor.noLonger_of_shorter hname hafter⟩
termination_by cursor.tokens.length

/-- The mixins, at least one if there are any. -/
def mixins (cursor : Cursor) : Except ParseError (Found (List String) cursor) :=
  match cursor.take? .includesWord with
  | none => .ok (.here [] cursor)
  | some ⟨_, afterMark, hmark⟩ => do
      let ⟨first, afterFirst, hfirst⟩ ← afterMark.expectAs .ident "a mixin class name"
      let ⟨rest, after, hafter⟩ := names afterFirst
      return ⟨first.text :: rest, after, by omega⟩

/-- The fields of a class up to the closing bracket. -/
def classFields (workspace : Workspace) (cursor : Cursor) :
    Except ParseError (Parsed (List (Field TypeExpr)) cursor) :=
  match cursor.take? .rightBracket with
  | some ⟨_, after, hafter⟩ => .ok ⟨[], after, hafter⟩
  | none => do
      let ⟨first, afterFirst, hfirst⟩ ← inContext .classField (field workspace false cursor)
      let ⟨rest, afterRest, hrest⟩ ← classFields workspace afterFirst
      return ⟨first :: rest, afterRest, by omega⟩
termination_by cursor.tokens.length

def classDecl (workspace : Workspace) (cursor : Cursor) :
    Except ParseError (Parsed ClassDecl cursor) :=
  inContext .classDecl do
    let ⟨_, afterMark, hmark⟩ ← cursor.expect .classWord
    let ⟨name, afterName, hname⟩ ← afterMark.expectAs .ident "a class name"
    let ⟨parameters, afterParameters, hparameters⟩ ← parameters afterName
    let ⟨base, afterBase, hbase⟩ ← baseClass afterParameters
    let ⟨mixins, afterMixins, hmixins⟩ ← mixins afterBase
    let ⟨_, afterOpening, hopening⟩ ← afterMixins.expect .leftBracket
    let ⟨fields, afterFields, hfields⟩ ← classFields workspace afterOpening
    let ⟨_, after, hafter⟩ ← afterFields.expect .semicolon
    let span := cursor.current.span.merge after.previous
    return ⟨⟨name.text, parameters, base, mixins, fields, span⟩, after, by omega⟩

end ConfigNotation.Parser
