import ConfigNotation.Syntax.Parser.Module

/-!
The grammar of modules, stated over tokens and without a parser: which tokens form a
module, and which module that is. Nothing is looked up ahead here; where a mark may be
left out, the grammar says in front of what.
-/

namespace ConfigNotation.Grammar

open ConfigNotation.Parser

def spanOf (tokens : List Token) : Span :=
  (tokens.head?.getD .missing).span.merge (tokens.getLast?.getD .missing).span

/-- The tokens before the first end of the input. -/
def beforeEnd (tokens : List Token) : List Token := tokens.takeWhile (·.kind ≠ .endOfInput)

theorem inside_of_mem_beforeEnd {tokens : List Token} {token : Token}
    (h : token ∈ beforeEnd tokens) :
    token ∈ tokens ∧ token.kind ≠ .endOfInput :=
  ⟨List.takeWhile_subset _ h, of_decide_eq_true (List.all_eq_true.1 List.all_takeWhile token h)⟩

/-- A token of a kind that may be missing, and whether it is there. -/
inductive Optional (kind : TokenKind) : List Token → Bool → Prop where
  | missing : Optional kind [] false
  | present {token : Token} (hkind : token.kind = kind) : Optional kind [token] true

/-- The mark between an item of a list and what follows in the list. Behind the
last item it may be missing. -/
inductive Separated (kind : TokenKind) : List Token → List Token → Prop where
  | mark {token : Token} (hkind : token.kind = kind) (rest : List Token) :
      Separated kind [token] rest
  | last : Separated kind [] []

section

variable (workspace : Workspace)

/-- The text of a file literal up to its closing quote, and the name of its
encoding. -/
def fileParts (token : Token) : List Char × List Char :=
  let text := token.text.toList
  (Text.splitAtLast? "\".".toList text).getD (text, [])

/-- A file literal, whose encoding is known and whose path leads to a file. -/
structure NamesFile (token : Token) (file : FileRef) : Prop where
  kind : token.kind = .file
  encoding : Encoding.ofChars? (fileParts token).2 = some file.encoding
  path : file.path = workspace.config.base.resolve
    ⟨String.ofList (Text.dropLeading '"' (fileParts token).1)⟩
  present : workspace.files.isPresent file.path = true
  isFile : workspace.files.isFile file.path = true

/-- A literal token with its value. A malformed one has none. -/
inductive IsLiteral : Token → Literal → Prop where
  | file {token : Token} {file : FileRef} (hfile : NamesFile workspace token file) :
      IsLiteral token (.file file)
  | plain {token : Token} {value : Literal} (hkind : token.kind.isLiteral = true)
      (hother : token.kind ≠ .file) (hvalue : Literal.ofToken workspace token = .ok value) :
      IsLiteral token value

/-- The kind of container that a member is for; a spread is for either. -/
def memberKind : Member Expr → ContainerKind
  | .property .. => .object
  | .element _ => .array
  | .spread _ => .unknown

/-- The kind that the keys of a container fix. Those of two kinds are not mixed,
and without keys the kind is not known. -/
structure FixesKind (members : List (Member Expr)) (kind : ContainerKind) : Prop where
  same : ∀ member ∈ members, memberKind member = .unknown ∨ memberKind member = kind
  fixed : kind = .unknown ∨ ∃ member ∈ members, memberKind member = kind

mutual

inductive IsExpr : List Token → Expr → Prop where
  | operand {tokens : List Token} {expr : Expr} (hoperand : IsOperand tokens expr) :
      IsExpr tokens expr
  | conditional {first second : List Token} {mark : Token} {left right : Expr}
      (hleft : IsOperand first left) (hmark : mark.kind = .question)
      (hright : IsOperand second right) :
      IsExpr (first ++ mark :: second) (.conditional (left.span.merge right.span) left right)

inductive IsOperand : List Token → Expr → Prop where
  | container {tokens : List Token} {body : Container Expr} (hbody : IsContainer tokens body) :
      IsOperand tokens (.container (spanOf tokens) body)
  | literal {token : Token} {value : Literal} (hliteral : IsLiteral workspace token value) :
      IsOperand [token] (.literal token.span value)
  | path {token : Token} (hkind : token.kind = .path) :
      IsOperand [token] (.path token.span (pathSegments token))
  | name {token : Token} (hkind : token.kind = .ident) :
      IsOperand [token] (.ident token.span token.text)
  | call {name opening closing : Token} {inner : List Token} {arguments : List (Argument Expr)}
      (hname : name.kind = .ident) (hopening : opening.kind = .leftParen)
      (harguments : AreArguments inner arguments) (hclosing : closing.kind = .rightParen) :
      IsOperand (name :: opening :: (inner ++ [closing]))
        (.call (spanOf (name :: opening :: (inner ++ [closing]))) name.text arguments)
  | classInstance {name : Token} {tokens : List Token} {body : Container Expr}
      (hname : name.kind = .ident) (hbody : IsContainer tokens body) :
      IsOperand (name :: tokens) (.classInstance (spanOf (name :: tokens)) name.text body)

/-- Members in brackets, which fix the kind. -/
inductive IsContainer : List Token → Container Expr → Prop where
  | intro {opening closing : Token} {inner : List Token} {members : List (Member Expr)}
      {kind : ContainerKind} (hopening : opening.kind = .leftBracket)
      (hmembers : AreMembers inner members) (hkind : FixesKind members kind)
      (hclosing : closing.kind = .rightBracket) :
      IsContainer (opening :: (inner ++ [closing])) ⟨kind, members⟩

/-- Members of a container, each with a semicolon behind it. -/
inductive AreMembers : List Token → List (Member Expr) → Prop where
  | nil : AreMembers [] []
  | property {key arrow semicolon : Token} {tokens rest : List Token} {value : Expr}
      {members : List (Member Expr)} (hkey : key.kind = .assocKey) (harrow : arrow.kind = .arrow)
      (hvalue : IsExpr tokens value) (hend : semicolon.kind = .semicolon)
      (hrest : AreMembers rest members) :
      AreMembers (key :: arrow :: (tokens ++ semicolon :: rest))
        (.property (keyName key) value :: members)
  | element {key arrow semicolon : Token} {tokens rest : List Token} {value : Expr}
      {members : List (Member Expr)} (hkey : key.kind = .numericKey) (harrow : arrow.kind = .arrow)
      (hvalue : IsExpr tokens value) (hend : semicolon.kind = .semicolon)
      (hrest : AreMembers rest members) :
      AreMembers (key :: arrow :: (tokens ++ semicolon :: rest)) (.element value :: members)
  | spread {mark semicolon : Token} {tokens rest : List Token} {value : Expr}
      {members : List (Member Expr)} (hmark : mark.kind = .spread)
      (hvalue : IsExpr tokens value) (hend : semicolon.kind = .semicolon)
      (hrest : AreMembers rest members) :
      AreMembers (mark :: (tokens ++ semicolon :: rest)) (.spread value :: members)

/-- Arguments of a call, with commas between them. -/
inductive AreArguments : List Token → List (Argument Expr) → Prop where
  | nil : AreArguments [] []
  | cons {mark tokens ends rest : List Token} {isSpread : Bool} {value : Expr}
      {arguments : List (Argument Expr)} (hmark : Optional .spread mark isSpread)
      (hvalue : IsExpr tokens value) (hends : Separated .comma ends rest)
      (hrest : AreArguments rest arguments) :
      AreArguments (mark ++ (tokens ++ (ends ++ rest))) (⟨isSpread, value⟩ :: arguments)

end

/-- The default of a field. In an object type an equals sign may stand before
it. -/
inductive IsDefault (inObjectType : Bool) : List Token → Option Expr → Prop where
  | missing : IsDefault inObjectType [] none
  | present {mark : Token} {tokens : List Token} {value : Expr}
      (hmark : mark.kind = .arrow ∨ inObjectType = true ∧ mark.kind = .equals)
      (hvalue : IsExpr workspace tokens value) :
      IsDefault inObjectType (mark :: tokens) (some value)

mutual

/-- A name, a string, or a type in brackets: an object type has at least one
field, and a tuple at least one semicolon. -/
inductive IsType : List Token → TypeExpr → Prop where
  | name {token : Token} (hkind : token.kind = .ident) : IsType [token] (.reference token.text)
  | text {token : Token} (hkind : token.kind = .string) :
      IsType [token] (.literal (String.ofList (Text.unquoted token.text.toList)))
  | object {opening closing : Token} {inner : List Token} {fields : List (Field TypeExpr)}
      (hopening : opening.kind = .leftBracket) (hfields : AreFields true inner fields)
      (hsome : fields ≠ []) (hclosing : closing.kind = .rightBracket) :
      IsType (opening :: (inner ++ [closing])) (.object fields)
  | array {opening closing : Token} (hopening : opening.kind = .leftBracket)
      (hclosing : closing.kind = .rightBracket) :
      IsType [opening, closing] .array
  | arrayOf {opening closing : Token} {inner : List Token} {element : TypeExpr}
      (hopening : opening.kind = .leftBracket) (helement : IsType inner element)
      (hclosing : closing.kind = .rightBracket) :
      IsType (opening :: (inner ++ [closing])) (.arrayOf element)
  | tuple {opening closing : Token} {inner : List Token} {elements : List TypeExpr}
      (hopening : opening.kind = .leftBracket) (helements : AreElements inner true elements)
      (hclosing : closing.kind = .rightBracket) :
      IsType (opening :: (inner ++ [closing])) (.tuple elements)

/-- Types with semicolons between them, and whether there is a semicolon. -/
inductive AreElements : List Token → Bool → List TypeExpr → Prop where
  | nil : AreElements [] false []
  | last {tokens : List Token} {element : TypeExpr} (helement : IsType tokens element) :
      AreElements tokens false [element]
  | cons {tokens rest : List Token} {semicolon : Token} {isTuple : Bool} {element : TypeExpr}
      {elements : List TypeExpr} (helement : IsType tokens element)
      (hmark : semicolon.kind = .semicolon) (hrest : AreElements rest isTuple elements) :
      AreElements (tokens ++ semicolon :: rest) true (element :: elements)

/-- The type behind a colon. A field without one takes every value. -/
inductive IsFieldType : List Token → TypeExpr → Prop where
  | missing : IsFieldType [] .any
  | present {colon : Token} {tokens : List Token} {type : TypeExpr} (hcolon : colon.kind = .colon)
      (htype : IsType tokens type) :
      IsFieldType (colon :: tokens) type

/-- A field of a class or of an object type: key, question mark, type and
default. -/
inductive IsField : Bool → List Token → Field TypeExpr → Prop where
  | intro {inObjectType isOptional : Bool} {key semicolon : Token}
      {mark typeTokens value : List Token} {type : TypeExpr} {default : Option Expr}
      (hkey : key.kind = .assocKey) (hmark : Optional .question mark isOptional)
      (htype : IsFieldType typeTokens type)
      (hdefault : IsDefault workspace inObjectType value default)
      (hend : semicolon.kind = .semicolon) :
      IsField inObjectType (key :: (mark ++ (typeTokens ++ (value ++ [semicolon]))))
        ⟨keyName key, type, isOptional, default,
          spanOf (key :: (mark ++ (typeTokens ++ (value ++ [semicolon]))))⟩

inductive AreFields : Bool → List Token → List (Field TypeExpr) → Prop where
  | nil {inObjectType : Bool} : AreFields inObjectType [] []
  | cons {inObjectType : Bool} {tokens rest : List Token} {field : Field TypeExpr}
      {fields : List (Field TypeExpr)} (hfield : IsField inObjectType tokens field)
      (hrest : AreFields inObjectType rest fields) :
      AreFields inObjectType (tokens ++ rest) (field :: fields)

end

end

/-- Parameters with commas between them. Nothing follows a rest parameter. -/
inductive AreParameters : List Token → List Parameter → Prop where
  | nil : AreParameters [] []
  | cons {mark ends rest : List Token} {name : Token} {isRest : Bool}
      {parameters : List Parameter} (hmark : Optional .spread mark isRest)
      (hname : name.kind = .ident) (hends : Separated .comma ends rest)
      (hlast : isRest = true → parameters = []) (hrest : AreParameters rest parameters) :
      AreParameters (mark ++ name :: (ends ++ rest)) (⟨name.text, isRest⟩ :: parameters)

inductive HasParameters : List Token → List Parameter → Prop where
  | missing : HasParameters [] []
  | present {opening closing : Token} {inner : List Token} {parameters : List Parameter}
      (hopening : opening.kind = .leftParen) (hparameters : AreParameters inner parameters)
      (hclosing : closing.kind = .rightParen) :
      HasParameters (opening :: (inner ++ [closing])) parameters

inductive HasBase : List Token → Option String → Prop where
  | missing : HasBase [] none
  | present {mark name : Token} (hmark : mark.kind = .extendsWord) (hname : name.kind = .ident) :
      HasBase [mark, name] (some name.text)

/-- The mixins of a class, at least one if there are any. -/
inductive HasMixins : List Token → List String → Prop where
  | missing : HasMixins [] []
  | present {mark first : Token} {others : List Token} (hmark : mark.kind = .includesWord)
      (hfirst : first.kind = .ident) (hothers : ∀ name ∈ others, name.kind = .ident) :
      HasMixins (mark :: first :: others) (first.text :: others.map (·.text))

/-- A class: its name, parameters, base class, mixins, and fields in brackets. -/
inductive IsClass (workspace : Workspace) : List Token → ClassDecl → Prop where
  | intro {mark name opening closing semicolon : Token}
      {parameterTokens baseTokens mixinTokens fieldTokens : List Token}
      {parameters : List Parameter} {base : Option String} {mixins : List String}
      {fields : List (Field TypeExpr)} (hmark : mark.kind = .classWord)
      (hname : name.kind = .ident) (hparameters : HasParameters parameterTokens parameters)
      (hbase : HasBase baseTokens base) (hmixins : HasMixins mixinTokens mixins)
      (hopening : opening.kind = .leftBracket)
      (hfields : AreFields workspace false fieldTokens fields)
      (hclosing : closing.kind = .rightBracket) (hend : semicolon.kind = .semicolon) :
      IsClass workspace
        (mark :: name :: (parameterTokens ++ (baseTokens ++ (mixinTokens ++
          opening :: (fieldTokens ++ [closing, semicolon])))))
        ⟨name.text, parameters, base, mixins, fields,
          spanOf (mark :: name :: (parameterTokens ++ (baseTokens ++ (mixinTokens ++
            opening :: (fieldTokens ++ [closing, semicolon])))))⟩

/-- The semicolon behind a group inside another one. It may be missing, but one
that stands there belongs to the group. -/
inductive GroupEnd : List Token → List Token → Prop where
  | mark {token : Token} (hkind : token.kind = .semicolon) (rest : List Token) :
      GroupEnd [token] rest
  | missing {rest : List Token} (hrest : ∀ token ∈ rest.head?, token.kind ≠ .semicolon) :
      GroupEnd [] rest

/-- How the grammar treats the mark behind the alias of a key: the last entry of
a group may be written without it, or no alias may. -/
inductive AliasEnd where
  | optional | required
  deriving DecidableEq

section

variable (aliasEnd : AliasEnd)

mutual

inductive IsGroup : List Token → List Leaf → Prop where
  | intro {opening closing : Token} {inner : List Token} {leaves : List Leaf}
      (hopening : opening.kind = .leftBracket) (hentries : AreEntries 0 inner leaves)
      (hclosing : closing.kind = .rightBracket) :
      IsGroup (opening :: (inner ++ [closing])) leaves

/-- Entries of a group from a place on. Those with a key take no place. -/
inductive AreEntries : Nat → List Token → List Leaf → Prop where
  | nil (place : Nat) : AreEntries place [] []
  | name {place : Nat} {name : Token} {ends rest : List Token} {leaves : List Leaf}
      (hname : name.kind = .ident) (hends : Separated .semicolon ends rest)
      (hrest : AreEntries (place + 1) rest leaves) :
      AreEntries place (name :: (ends ++ rest)) (⟨[toString place], name.text⟩ :: leaves)
  | empty {place : Nat} {semicolon : Token} {rest : List Token} {leaves : List Leaf}
      (hend : semicolon.kind = .semicolon) (hrest : AreEntries (place + 1) rest leaves) :
      AreEntries place (semicolon :: rest) leaves
  | skip {place : Nat} {word : Token} {ends rest : List Token} {leaves : List Leaf}
      (hword : word.kind = .skipWord) (hends : Separated .semicolon ends rest)
      (hrest : AreEntries (place + 1) rest leaves) :
      AreEntries place (word :: (ends ++ rest)) leaves
  | group {place : Nat} {tokens ends rest : List Token} {inner leaves : List Leaf}
      (hgroup : IsGroup tokens inner) (hends : GroupEnd ends rest)
      (hrest : AreEntries (place + 1) rest leaves) :
      AreEntries place (tokens ++ (ends ++ rest)) (inner.map (.under (toString place)) ++ leaves)
  | keyedName {place : Nat} {key arrow name : Token} {ends rest : List Token} {leaves : List Leaf}
      (hkey : key.kind = .ident) (harrow : arrow.kind = .arrow) (hname : name.kind = .ident)
      (hends : Separated .semicolon ends rest) (hwritten : aliasEnd = .required → ends ≠ [])
      (hrest : AreEntries place rest leaves) :
      AreEntries place (key :: arrow :: name :: (ends ++ rest))
        (⟨[key.text], name.text⟩ :: leaves)
  | keyedGroup {place : Nat} {key arrow : Token} {tokens ends rest : List Token}
      {inner leaves : List Leaf} (hkey : key.kind = .ident) (harrow : arrow.kind = .arrow)
      (hgroup : IsGroup tokens inner) (hends : GroupEnd ends rest)
      (hrest : AreEntries place rest leaves) :
      AreEntries place (key :: arrow :: (tokens ++ (ends ++ rest)))
        (inner.map (.under key.text) ++ leaves)

end

inductive IsBinding : List Token → Binding → Prop where
  | name {token : Token} (hkind : token.kind = .ident) : IsBinding [token] (.name token.text)
  | pattern {tokens : List Token} {leaves : List Leaf} (hgroup : IsGroup aliasEnd tokens leaves) :
      IsBinding tokens (.pattern leaves)

variable (workspace : Workspace)

/-- An import, with its binding behind the file or a pattern before it. -/
inductive IsImport : List Token → Import → Prop where
  | binding {mark source asWord semicolon : Token} {tokens : List Token} {file : FileRef}
      {binding : Binding} (hmark : mark.kind = .importWord)
      (hsource : NamesFile workspace source file) (has : asWord.kind = .asWord)
      (hbinding : IsBinding aliasEnd tokens binding) (hend : semicolon.kind = .semicolon) :
      IsImport (mark :: source :: asWord :: (tokens ++ [semicolon]))
        ⟨file, binding, spanOf (mark :: source :: asWord :: (tokens ++ [semicolon]))⟩
  | pattern {mark fromWord source semicolon : Token} {tokens : List Token} {file : FileRef}
      {leaves : List Leaf} (hmark : mark.kind = .importWord)
      (hgroup : IsGroup aliasEnd tokens leaves) (hfrom : fromWord.kind = .fromWord)
      (hsource : NamesFile workspace source file) (hend : semicolon.kind = .semicolon) :
      IsImport (mark :: (tokens ++ [fromWord, source, semicolon]))
        ⟨file, .pattern leaves, spanOf (mark :: (tokens ++ [fromWord, source, semicolon]))⟩

/-- The value of a use that its binding follows. One that starts with a name is
a single operand. -/
inductive IsUsedValue : List Token → Expr → Prop where
  | operand {name : Token} {rest : List Token} {value : Expr} (hname : name.kind = .ident)
      (hoperand : IsOperand workspace (name :: rest) value) :
      IsUsedValue (name :: rest) value
  | expr {first : Token} {rest : List Token} {value : Expr} (hfirst : first.kind ≠ .ident)
      (hexpr : IsExpr workspace (first :: rest) value) :
      IsUsedValue (first :: rest) value

/-- A use, with its binding behind the value or a pattern before it. Brackets
with nothing between them are a value. -/
inductive IsUse : List Token → Use → Prop where
  | binding {mark asWord semicolon : Token} {valueTokens tokens : List Token} {value : Expr}
      {binding : Binding} (hmark : mark.kind = .useWord)
      (hvalue : IsUsedValue workspace valueTokens value) (has : asWord.kind = .asWord)
      (hbinding : IsBinding aliasEnd tokens binding) (hend : semicolon.kind = .semicolon) :
      IsUse (mark :: (valueTokens ++ asWord :: (tokens ++ [semicolon])))
        ⟨value, binding, spanOf (mark :: (valueTokens ++ asWord :: (tokens ++ [semicolon])))⟩
  | pattern {mark fromWord semicolon : Token} {tokens valueTokens : List Token}
      {leaves : List Leaf} {value : Expr} (hmark : mark.kind = .useWord)
      (hgroup : IsGroup aliasEnd tokens leaves) (hsome : 2 < tokens.length)
      (hfrom : fromWord.kind = .fromWord) (hvalue : IsExpr workspace valueTokens value)
      (hend : semicolon.kind = .semicolon) :
      IsUse (mark :: (tokens ++ fromWord :: (valueTokens ++ [semicolon])))
        ⟨value, .pattern leaves,
          spanOf (mark :: (tokens ++ fromWord :: (valueTokens ++ [semicolon])))⟩

/-- Statements and the export statement, which is the last one. Loose
expressions leave no trace in the module. -/
inductive IsModule : List Token → Module → Prop where
  | exported {mark semicolon : Token} {tokens : List Token} {body : Expr}
      (hmark : mark.kind = .exportWord) (hbody : IsExpr workspace tokens body)
      (hend : semicolon.kind = .semicolon) :
      IsModule (mark :: (tokens ++ [semicolon])) ⟨[], [], [], body⟩
  | imported {tokens rest : List Token} {first : Import} {module : Module}
      (hfirst : IsImport aliasEnd workspace tokens first) (hrest : IsModule rest module) :
      IsModule (tokens ++ rest) { module with imports := first :: module.imports }
  | used {tokens rest : List Token} {first : Use} {module : Module}
      (hfirst : IsUse aliasEnd workspace tokens first) (hrest : IsModule rest module) :
      IsModule (tokens ++ rest) { module with uses := first :: module.uses }
  | declared {tokens rest : List Token} {first : ClassDecl} {module : Module}
      (hfirst : IsClass workspace tokens first) (hrest : IsModule rest module) :
      IsModule (tokens ++ rest) { module with classes := first :: module.classes }
  | loose {tokens rest : List Token} {semicolon : Token} {expr : Expr} {module : Module}
      (hexpr : IsExpr workspace tokens expr) (hend : semicolon.kind = .semicolon)
      (hrest : IsModule rest module) :
      IsModule (tokens ++ semicolon :: rest) module

end

end ConfigNotation.Grammar
