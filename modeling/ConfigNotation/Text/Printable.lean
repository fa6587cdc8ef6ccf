import ConfigNotation.Unicode.Binary

/-!
Text as messages quote it. What cannot be seen by itself is written as an escape:
controls, formats, separators other than the space, code points without a
character, and marks that extend the character before them.
-/

namespace ConfigNotation.Text

/-- The characters that cannot be seen by themselves. -/
def hidden : CharSet :=
  .unionAll [Unicode.other, Unicode.separator.diff (.ofChar ' '), Unicode.graphemeExtend]

def visibleChar (c : Char) : List Char :=
  match c with
  | '\x00' => ['\\', '0']
  | '\t' => ['\\', 't']
  | '\n' => ['\\', 'n']
  | '\r' => ['\\', 'r']
  | '"' => ['\\', '"']
  | '\\' => ['\\', '\\']
  | c =>
      if hidden.contains c then "\\u\x7b".toList ++ Nat.toDigits 16 c.toNat ++ ['\x7d'] else [c]

/-- A text in quotes, with escapes for what cannot be seen. -/
def visible (text : String) : String :=
  String.ofList ('"' :: text.toList.flatMap visibleChar ++ ['"'])

end ConfigNotation.Text
