import ConfigNotation.Text.CharClass

/-!
Readers: functions that take something off the start of a text or refuse it.
-/

namespace ConfigNotation

abbrev Reader (α : Type) := StateT (List Char) Option α

namespace Reader

def readAll? {α : Type} (reader : Reader α) (text : List Char) : Option α := do
  let (value, rest) ← reader.run text
  if rest.isEmpty then some value else none

def satisfying (condition : Char → Bool) : Reader Char := fun text =>
  match text with
  | c :: rest => if condition c then some (c, rest) else none
  | [] => none

def char (c : Char) : Reader Unit := do
  let _ ← satisfying (· == c)

def charIf (c : Char) : Reader Bool := fun text =>
  match text with
  | d :: rest => if d = c then some (true, rest) else some (false, text)
  | [] => some (false, [])

def next : Reader Char := satisfying fun _ => true

/-- The next character, which is not taken. -/
def peek? : Reader (Option Char) := fun text => some (text.head?, text)

def blanks : Reader Unit := fun text => some ((), Text.trimStart text)

def someBlanks : Reader Unit := do
  let _ ← satisfying Text.isBlank
  blanks

end Reader

end ConfigNotation
