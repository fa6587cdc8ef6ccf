/-!
The kinds of tokens, with the names that messages use for them.
-/

namespace ConfigNotation

inductive TokenKind where
  | string | number | bigInt | boolean | null | undefined | date | file | regExp
  | importWord | useWord | exportWord | fromWord | asWord | skipWord
  | classWord | extendsWord | includesWord
  | arrow | spread | assocKey | numericKey
  | path | ident
  | leftParen | rightParen | leftBracket | rightBracket
  | comma | semicolon | colon | question | equals
  | endOfInput
  deriving DecidableEq, Repr, Inhabited

namespace TokenKind

def displayName : TokenKind → String
  | string => "string"
  | number => "number"
  | bigInt => "bigint"
  | boolean => "boolean"
  | null => "Null"
  | undefined => "Undefined"
  | date => "date literal"
  | file => "file literal"
  | regExp => "regular expression"
  | importWord => "import"
  | useWord => "use"
  | exportWord => "export"
  | fromWord => "from"
  | asWord => "as"
  | skipWord => "skip"
  | classWord => "class"
  | extendsWord => "extends"
  | includesWord => "includes"
  | arrow => "=>"
  | spread => "..."
  | assocKey => "@key"
  | numericKey => "@*"
  | path => "path"
  | ident => "identifier"
  | leftParen => "("
  | rightParen => ")"
  | leftBracket => "["
  | rightBracket => "]"
  | comma => ","
  | semicolon => ";"
  | colon => ":"
  | question => "?"
  | equals => "="
  | endOfInput => "end of input"

def listingName : TokenKind → String
  | string => "String"
  | number => "Number"
  | bigInt => "BigInt"
  | boolean => "Boolean"
  | null => "Null"
  | undefined => "Undefined"
  | date => "Date"
  | file => "File"
  | regExp => "RegExp"
  | importWord => "Import"
  | useWord => "Use"
  | exportWord => "Export"
  | fromWord => "From"
  | asWord => "As"
  | skipWord => "Skip"
  | classWord => "Class"
  | extendsWord => "Extends"
  | includesWord => "Includes"
  | arrow => "Arrow"
  | spread => "Spread"
  | assocKey => "AssocKey"
  | numericKey => "NumericKey"
  | path => "Path"
  | ident => "Ident"
  | leftParen => "LParen"
  | rightParen => "RParen"
  | leftBracket => "LBracket"
  | rightBracket => "RBracket"
  | comma => "Comma"
  | semicolon => "Semicolon"
  | colon => "Colon"
  | question => "Question"
  | equals => "Equals"
  | endOfInput => "Eof"

def all : List TokenKind :=
  [string, number, bigInt, boolean, null, undefined, date, file, regExp, importWord, useWord,
    exportWord, fromWord, asWord, skipWord, classWord, extendsWord, includesWord, arrow, spread,
    assocKey, numericKey, path, ident, leftParen, rightParen, leftBracket, rightBracket, comma,
    semicolon, colon, question, equals, endOfInput]

def ofListingName? (name : String) : Option TokenKind := all.find? (·.listingName == name)

def isLiteral : TokenKind → Bool
  | string | number | bigInt | boolean | null | undefined | date | file | regExp => true
  | _ => false

end TokenKind

end ConfigNotation
