import ConfigNotation.Syntax.Module
import ConfigNotation.Syntax.Parser.Expr

/-!
Reading type annotations and fields. A semicolon between brackets makes a tuple,
a key makes an object type.
-/

namespace ConfigNotation.Parser

/-- The type in brackets that is not an object type. -/
def bracketedType (isTuple : Bool) (elements : List TypeExpr) : TypeExpr :=
  if isTuple then .tuple elements
  else match elements.getLast? with
    | some element => .arrayOf element
    | none => .array

/-- The default behind an arrow. Fields of an object type may have an equals
sign in its place. -/
def fieldDefault (workspace : Workspace) (inObjectType : Bool) (cursor : Cursor) :
    Except ParseError (Found (Option Expr) cursor) :=
  let mark := cursor.take? .arrow <|> if inObjectType then cursor.take? .equals else none
  match mark with
  | none => .ok (.here none cursor)
  | some mark => do
      let value ← mark.thenRead (expr workspace)
      return (value.map some).found

mutual

/-- The name of a built-in type or of a class, a string, or a type in
brackets. -/
def typeExpr (workspace : Workspace) (cursor : Cursor) :
    Except ParseError (Parsed TypeExpr cursor) :=
  inContext .typeExpr <|
    match cursor.next? with
    | none => .error (cursor.unexpected "a type")
    | some ⟨token, after, hafter⟩ =>
        match token.kind with
        | .ident => .ok ⟨.reference token.text, after, hafter⟩
        | .string =>
            let body := String.ofList (Text.unquoted token.text.toList)
            .ok ⟨.literal body, after, hafter⟩
        | .leftBracket =>
            if after.kind = .assocKey then do
              let ⟨fields, afterFields, hfields⟩ ← objectFields workspace after
              return ⟨.object fields, afterFields, by omega⟩
            else do
              let ⟨⟨isTuple, elements⟩, afterElements, helements⟩ ← typeElements workspace after
              return ⟨bracketedType isTuple elements, afterElements, by omega⟩
        | _ => .error (cursor.unexpected "a type")
termination_by 4 * cursor.tokens.length

def objectFields (workspace : Workspace) (cursor : Cursor) :
    Except ParseError (Parsed (List (Field TypeExpr)) cursor) :=
  match cursor.take? .rightBracket with
  | some ⟨_, after, hafter⟩ => .ok ⟨[], after, hafter⟩
  | none => do
      let ⟨first, afterFirst, hfirst⟩ ← field workspace true cursor
      let ⟨rest, afterRest, hrest⟩ ← objectFields workspace afterFirst
      return ⟨first :: rest, afterRest, by omega⟩
termination_by 4 * cursor.tokens.length + 2

/-- The types up to the closing bracket, and whether a semicolon stands behind
one of them. -/
def typeElements (workspace : Workspace) (cursor : Cursor) :
    Except ParseError (Parsed (Bool × List TypeExpr) cursor) :=
  match cursor.take? .rightBracket with
  | some ⟨_, after, hafter⟩ => .ok ⟨(false, []), after, hafter⟩
  | none => do
      let ⟨element, afterElement, helement⟩ ← typeExpr workspace cursor
      let ⟨hasEnd, afterEnd, hend⟩ := afterElement.eat .semicolon
      if !hasEnd && afterElement.kind != .rightBracket then
        throw (afterElement.unexpected "\";\" or \"]\" in the type")
      let ⟨⟨isTuple, rest⟩, afterRest, hrest⟩ ← typeElements workspace afterEnd
      return ⟨(hasEnd || isTuple, element :: rest), afterRest, by omega⟩
termination_by 4 * cursor.tokens.length + 1

/-- A field of a class or of an object type: key, question mark, type,
default. -/
def field (workspace : Workspace) (inObjectType : Bool) (cursor : Cursor) :
    Except ParseError (Parsed (Field TypeExpr) cursor) := do
  let ⟨key, afterKey, hkey⟩ ← cursor.expectAs .assocKey "\"@name\""
  let ⟨optional, afterMark, hmark⟩ := afterKey.eat .question
  let ⟨type, afterType, htype⟩ ← fieldType workspace afterMark
  let ⟨default, afterDefault, hdefault⟩ ← fieldDefault workspace inObjectType afterType
  let ⟨_, after, hafter⟩ ← afterDefault.expect .semicolon
  let span := cursor.current.span.merge after.previous
  return ⟨⟨keyName key, type, optional, default, span⟩, after, by omega⟩
termination_by 4 * cursor.tokens.length + 1

/-- The type behind a colon. A field without one takes every value. -/
def fieldType (workspace : Workspace) (cursor : Cursor) :
    Except ParseError (Found TypeExpr cursor) :=
  match cursor.take? .colon with
  | none => .ok (.here .any cursor)
  | some ⟨_, afterColon, hcolon⟩ => do
      let ⟨type, afterType, htype⟩ ← typeExpr workspace afterColon
      return ⟨type, afterType, by omega⟩
termination_by 4 * cursor.tokens.length

end

end ConfigNotation.Parser
