/-!
Text as the body of a string literal. Brackets are escaped, so that a body never
holds a placeholder.
-/

namespace ConfigNotation.Source

/-- How a character is written inside quotes. -/
def quotedChar (c : Char) : List Char :=
  match c with
  | '\\' => ['\\', '\\']
  | '"' => ['\\', '"']
  | '[' => ['\\', '[']
  | ']' => ['\\', ']']
  | '\x08' => ['\\', 'b']
  | '\x0c' => ['\\', 'f']
  | '\n' => ['\\', 'n']
  | '\r' => ['\\', 'r']
  | '\t' => ['\\', 't']
  | '\x0b' => ['\\', 'v']
  | c => [c]

def body (text : List Char) : List Char := text.flatMap quotedChar

def quoted (text : String) : String := "\"" ++ String.ofList (body text.toList) ++ "\""

end ConfigNotation.Source
