import ConfigNotation.Text.CharClass
import ConfigNotation.Token.Kind

/-!
What each kind of token looks like. A pattern gives the number of characters
that it covers at the start of a text; of all patterns the longest match wins,
and of two equally long ones the pattern listed first.
-/

namespace ConfigNotation

namespace Pattern

def isLineBreak (c : Char) : Bool := c == '\n' || c == '\r'

def fixed? (word : List Char) (text : List Char) : Option Nat :=
  if word.isPrefixOf text then some word.length else none

/-- A fixed word that is not part of a longer word on either side. -/
def word? (word : List Char) (previous : Option Char) (text : List Char) : Option Nat :=
  if word.isPrefixOf text && previous.all (!isWordChar ·) &&
      (text.drop word.length).head?.all (!isWordChar ·) then
    some word.length
  else none

/-- Whether a text starts with a word of lower-case letters, in either case. -/
def startsWithAnyCase (word text : List Char) : Bool :=
  (text.take word.length).map Char.toLower == word

def plainQuoted? : List Char → Option Nat
  | '"' :: body =>
      let inner := body.takeWhile fun c => c != '"' && !isLineBreak c
      if (body.drop inner.length).head? == some '"' then some (inner.length + 2) else none
  | _ => none

/-- A plain quoted text followed by `.date`. -/
def date? (text : List Char) : Option Nat :=
  (plainQuoted? text).bind fun size =>
    if startsWithAnyCase ".date".toList (text.drop size) then some (size + 5) else none

/-- The endings that name an encoding. Of two that fit, the one listed first is
taken. -/
def encodingEndings : List (List Char) :=
  ["utf8", "utf-8", "utf16le", "utf-16le", "base64", "base-64", "ascii", "latin1", "latin-1",
    "binary", "hex"].map String.toList

def file? (text : List Char) : Option Nat :=
  (plainQuoted? text).bind fun size =>
    match text.drop size with
    | '.' :: rest =>
        (encodingEndings.find? (startsWithAnyCase · rest)).map fun ending =>
          size + 1 + ending.length
    | _ => none

/-- The rest of a string up to its closing quote. A backslash protects the
character behind it, which cannot be a line break. -/
def stringRest? : List Char → Option Nat
  | [] => none
  | '"' :: _ => some 1
  | '\\' :: [] => none
  | '\\' :: c :: rest => if isLineBreak c then none else (stringRest? rest).map (· + 2)
  | _ :: rest => (stringRest? rest).map (· + 1)

/-- A string; it may run over several lines. -/
def string? : List Char → Option Nat
  | '"' :: rest => (stringRest? rest).map (· + 1)
  | _ => none

def regExpRest? : List Char → Option Nat
  | [] => none
  | '/' :: _ => some 1
  | '\\' :: [] => none
  | '\\' :: c :: rest => if isLineBreak c then none else (regExpRest? rest).map (· + 2)
  | c :: rest => if isLineBreak c then none else (regExpRest? rest).map (· + 1)

def isRegExpFlag (c : Char) : Bool := "igsmuy".toList.contains c

/-- A regular expression on one line, which is not empty, and its flags. -/
def regExp? : List Char → Option Nat
  | '/' :: '/' :: _ => none
  | '/' :: rest =>
      (regExpRest? rest).map fun size =>
        1 + size + ((rest.drop size).takeWhile isRegExpFlag).length
  | _ => none

def isHexDigit (c : Char) : Bool :=
  c.isDigit || ('a' ≤ c && c ≤ 'f') || ('A' ≤ c && c ≤ 'F')

def isOctalDigit (c : Char) : Bool := '0' ≤ c && c ≤ '7'

def isBinaryDigit (c : Char) : Bool := c == '0' || c == '1'

/-- An integer with a radix mark and at least one digit or underscore behind
it. -/
def radixInteger? (text : List Char) : Option Nat :=
  let digits (isDigit : Char → Bool) (rest : List Char) : Option Nat :=
    let size := (rest.takeWhile fun c => isDigit c || c == '_').length
    if 0 < size then some (size + 2) else none
  match text with
  | '0' :: 'x' :: rest => digits isHexDigit rest
  | '0' :: 'o' :: rest => digits isOctalDigit rest
  | '0' :: 'b' :: rest => digits isBinaryDigit rest
  | _ => none

def isDecimalChar (c : Char) : Bool := c.isDigit || c == '_'

def decimalRun (text : List Char) : List Char := text.takeWhile isDecimalChar

def fractionSize : List Char → Nat
  | '.' :: rest => if decimalRun rest = [] then 0 else (decimalRun rest).length + 1
  | _ => 0

/-- A mark, a sign and the digits of an exponent, if there are any digits. -/
def exponentSize : List Char → Nat
  | 'e' :: rest =>
      let sign := if rest.head? == some '+' || rest.head? == some '-' then 1 else 0
      let digits := decimalRun (rest.drop sign)
      if digits = [] then 0 else 1 + sign + digits.length
  | _ => 0

/-- A decimal number: it has a digit before its exponent. -/
def decimal? (text : List Char) : Option Nat :=
  let whole := (decimalRun text).length
  let size := whole + fractionSize (text.drop whole)
  if (text.take size).any Char.isDigit then some (size + exponentSize (text.drop size)) else none

def signed? (pattern : List Char → Option Nat) : List Char → Option Nat
  | '-' :: rest => (pattern rest).map (· + 1)
  | text => pattern text

def magnitude? (text : List Char) : Option Nat :=
  radixInteger? text <|> fixed? "Infinity".toList text <|> fixed? "NaN".toList text <|>
    decimal? text

def number? : List Char → Option Nat := signed? magnitude?

/-- The digits of an integer without sign: with a radix mark, or decimal. -/
def integer? (text : List Char) : Option Nat :=
  radixInteger? text <|>
    if (decimalRun text).any Char.isDigit then some (decimalRun text).length else none

def bigInt? : List Char → Option Nat :=
  signed? fun text => (integer? text).bind fun size =>
    if (text.drop size).head? == some 'n' then some (size + 1) else none

def ident? : List Char → Option Nat
  | [] => none
  | c :: rest => if isIdentStart c then some (1 + (rest.takeWhile isWordChar).length) else none

def assocKey? : List Char → Option Nat
  | '@' :: rest => (ident? rest).map (· + 1)
  | _ => none

/-- What continues a dotted path inside a segment, which is a decimal index or
an identifier: more of the segment, or a dot and a further segment. -/
def pathTail (index : Bool) : List Char → Nat
  | [] => 0
  | '.' :: c :: rest =>
      if isIdentStart c then pathTail false rest + 2
      else if c.isDigit then pathTail true rest + 2
      else 0
  | c :: rest =>
      if (if index then c.isDigit else isWordChar c) then pathTail index rest + 1 else 0

def path? : List Char → Option Nat
  | [] => none
  | c :: rest =>
      let size := 1 + pathTail false rest
      if isIdentStart c && (ident? (c :: rest)).any (· < size) then some size else none

end Pattern

/-- One way to form a token. The character before the text is given as well,
because a keyword cannot stand inside a longer word. -/
structure Pattern where
  kind : TokenKind
  length? : (previous : Option Char) → (text : List Char) → Option Nat

namespace Pattern

private def plain (kind : TokenKind) (length? : List Char → Option Nat) : Pattern :=
  ⟨kind, fun _ => length?⟩

private def keyword (kind : TokenKind) (word : String) : Pattern := ⟨kind, word? word.toList⟩

private def mark (kind : TokenKind) (text : String) : Pattern := plain kind (fixed? text.toList)

/-- All patterns in order of precedence. -/
def all : List Pattern :=
  [plain .date date?, plain .file file?, plain .string string?, plain .regExp regExp?,
    plain .number number?, plain .bigInt bigInt?,
    keyword .boolean "True", keyword .boolean "False", keyword .null "Null",
    keyword .undefined "Undefined", keyword .importWord "import", keyword .useWord "use",
    keyword .exportWord "export", keyword .fromWord "from", keyword .asWord "as",
    keyword .skipWord "skip", keyword .classWord "class", keyword .extendsWord "extends",
    keyword .includesWord "includes",
    mark .arrow "=>", mark .spread "...", plain .assocKey assocKey?, mark .numericKey "@*",
    plain .path path?, plain .ident ident?,
    mark .leftParen "(", mark .rightParen ")", mark .leftBracket "[", mark .rightBracket "]",
    mark .comma ",", mark .semicolon ";", mark .colon ":", mark .question "?", mark .equals "="]

def matchSize (found : Option (TokenKind × Nat)) : Nat := (found.map (·.2)).getD 0

/-- Takes a pattern into account: it is preferred only if it covers more. -/
def prefer (previous : Option Char) (text : List Char) (best : Option (TokenKind × Nat))
    (pattern : Pattern) : Option (TokenKind × Nat) :=
  match pattern.length? previous text with
  | some size => if matchSize best < size then some (pattern.kind, size) else best
  | none => best

/-- The longest match at the start of a text, of the earliest pattern on a
tie. -/
def longestMatch (previous : Option Char) (text : List Char) : Option (TokenKind × Nat) :=
  all.foldl (prefer previous text) none

end Pattern

end ConfigNotation
