import ConfigNotation.Number.Text
import ConfigNotation.Regex.Pattern
import ConfigNotation.Text.Reader
import ConfigNotation.Unicode.Ascii
import ConfigNotation.Unicode.Property

/-!
Reading patterns. In the verbose form, blanks and comments between the parts of a
pattern, and inside most of them, do not count.
-/

namespace ConfigNotation.Regex

/-- Drops blanks and comments. A comment reaches from `#` to the end of its
line. -/
def dropIgnored (inComment : Bool) : List Char → List Char
  | [] => []
  | c :: rest =>
      if inComment then dropIgnored (c != '\n') rest
      else if Text.isBlank c then dropIgnored false rest
      else if c = '#' then dropIgnored true rest
      else c :: rest

/-- Drops what the verbose form ignores. -/
def skip (verbose : Bool) : Reader Unit := fun text =>
  some ((), if verbose then dropIgnored false text else text)

/-- Splits a text before the first character that counts and does not satisfy a
condition. The first part is without what does not count. -/
def spanKept (verbose : Bool) (condition : Char → Bool) (inComment : Bool) :
    List Char → List Char × List Char
  | [] => ([], [])
  | c :: rest =>
      if inComment then spanKept verbose condition (c != '\n') rest
      else if verbose && Text.isBlank c then spanKept verbose condition false rest
      else if verbose && c == '#' then spanKept verbose condition true rest
      else if condition c then
        let (kept, after) := spanKept verbose condition false rest
        (c :: kept, after)
      else ([], c :: rest)

/-- The characters that count and satisfy a condition, up to the first one that
does not. -/
def takeKept (verbose : Bool) (condition : Char → Bool) : Reader (List Char) := fun text =>
  some (spanKept verbose condition false text)

def untilBrace (verbose : Bool) : Reader (List Char) := do
  let kept ← takeKept verbose (· != '\x7D')
  Reader.char '\x7D'
  return kept

/-- A given number of characters that count. -/
def takeCount (verbose : Bool) : Nat → Reader (List Char)
  | 0 => return []
  | count + 1 => do
      skip verbose
      let c ← Reader.next
      return c :: (← takeCount verbose count)

def hexChar? (digits : List Char) : Option Char := do
  let values ← if digits.isEmpty then none else Number.digitValues? 16 digits
  let code := Number.ofDigitValues 16 values
  if code.isValidChar then some (Char.ofNat code) else none

/-- What can stand inside brackets and outside of them, apart from literals and
brackets: what an escape is. -/
inductive Escape where
  | literal (literal : Literal)
  | assertion (assertion : Assertion)
  | charClass (charClass : CharClass)
  deriving Repr

namespace Escape

def ofChar (c : Char) : Escape := literal ⟨c, false⟩

/-- A character by its number: in braces, or in a fixed count of digits. -/
def readNumbered (verbose : Bool) (count : Nat) : Reader Escape := do
  skip verbose
  if ← Reader.charIf '\x7B' then return .ofChar (← hexChar? (← untilBrace verbose))
  else
    let c ← hexChar? (← takeCount verbose count)
    return literal ⟨c, count == 2⟩

/-- Splits a text at a mark, and leaves the mark out. -/
def splitAt? (mark : List Char) : List Char → Option (List Char × List Char)
  | [] => none
  | c :: rest =>
      if mark.isPrefixOf (c :: rest) then some ([], (c :: rest).drop mark.length)
      else (splitAt? mark rest).map fun (before, after) => (c :: before, after)

/-- The class of the characters with a property. A name may come with a value,
or with a value that the characters must not have. -/
def propertyClass? (negated : Bool) (name : List Char) : Option CharClass :=
  match splitAt? ['!', '='] name with
  | some (name, value) => (Unicode.propertyValue? name value).map (.property · !negated)
  | none =>
      match splitAt? [':'] name <|> splitAt? ['='] name with
      | some (name, value) => (Unicode.propertyValue? name value).map (.property · negated)
      | none => (Unicode.property? name).map (.property · negated)

/-- A property: one letter, or a name in braces. -/
def readProperty (verbose negated : Bool) : Reader Escape := do
  skip verbose
  let name ← if ← Reader.charIf '\x7B' then untilBrace verbose else takeCount verbose 1
  return charClass (← propertyClass? negated name)

/-- Behind the letter of a word edge: which edges are meant, by a name in
braces. Braces that hold no name belong to what follows. -/
def readWordEdge (verbose : Bool) : Reader Escape := do
  let isNamePart (c : Char) : Bool := c.isAlpha || c == '-'
  let before ← get
  let edge ←
    if ← Reader.charIf '\x7B' then
      skip verbose
      match ← Reader.peek? with
      | none => failure
      | some c =>
          if isNamePart c then
            let name ← takeKept verbose isNamePart
            Reader.char '\x7D'
            WordEdge.ofName? (String.ofList name)
          else do
            set before
            pure .either
    else pure .either
  return assertion (.word edge)

/-- What follows a backslash. -/
def read (verbose : Bool) : Reader Escape := do
  match ← Reader.next with
  | 'x' => readNumbered verbose 2
  | 'u' => readNumbered verbose 4
  | 'U' => readNumbered verbose 8
  | 'p' => readProperty verbose false
  | 'P' => readProperty verbose true
  | 'd' => return charClass (.kind .digit false)
  | 'D' => return charClass (.kind .digit true)
  | 's' => return charClass (.kind .space false)
  | 'S' => return charClass (.kind .space true)
  | 'w' => return charClass (.kind .word false)
  | 'W' => return charClass (.kind .word true)
  | 'a' => return .ofChar '\x07'
  | 't' => return .ofChar '\t'
  | 'n' => return .ofChar '\n'
  | 'v' => return .ofChar '\x0B'
  | 'f' => return .ofChar '\x0C'
  | 'r' => return .ofChar '\r'
  | 'A' => return assertion .textStart
  | 'z' => return assertion .textEnd
  | 'b' => readWordEdge verbose
  | 'B' => return assertion (.word .neither)
  | '<' => return assertion (.word .start)
  | '>' => return assertion (.word .finish)
  | c => if c.toNat < 0x80 && !c.isAlphanum then return .ofChar c else failure

end Escape

namespace ClassSet

/-- A set in brackets that is being read: whether it is negated, the operation
that its items are the right side of, and its items, the last one first. -/
structure Level where
  negated : Bool
  left : Option (SetOperation × ClassSet)
  items : List ClassSet

namespace Level

def push (level : Level) (item : ClassSet) : Level := { level with items := item :: level.items }

def body (level : Level) : ClassSet :=
  let right := ofItems level.items.reverse
  match level.left with
  | some (op, left) => .operation op left right
  | none => right

/-- What was read becomes the left side of an operation. -/
def operate (level : Level) (op : SetOperation) : Level :=
  { level with left := some (op, level.body), items := [] }

end Level

/-- What follows an opening bracket: negation, and dashes or a closing bracket
that stand for themselves. -/
def readOpening (verbose : Bool) : Reader Level := do
  skip verbose
  let negated ← Reader.charIf '^'
  let dashes ← takeKept verbose (· == '-')
  let taken ←
    if dashes.isEmpty then
      if ← Reader.charIf ']' then pure [']'] else pure []
    else pure dashes
  return ⟨negated, none, taken.map fun c => .literal ⟨c, false⟩⟩

/-- A class of ASCII characters by its name between colons, behind a bracket. -/
def ascii? : List Char → Option (ClassSet × List Char)
  | ':' :: text =>
      let negated := text.head? == some '^'
      let text := if negated then text.drop 1 else text
      let name := text.takeWhile (· != ':')
      match text.drop name.length with
      | ':' :: ']' :: rest =>
          (Unicode.asciiClasses.lookup (String.ofList name)).map fun members =>
            (.ascii members negated, rest)
      | _ => none
  | _ => none

def readAtom (verbose : Bool) : Reader Escape := do
  match ← Reader.next with
  | '\\' => Escape.read verbose
  | c => return .ofChar c

/-- Whether a dash with the given text behind it is no range. Of comments, only
the mark of the first one is passed over here. -/
def isLastDash (verbose : Bool) (text : List Char) : Bool :=
  let next :=
    if verbose then
      match Text.trimStart text with
      | '#' :: rest => Text.trimStart rest
      | rest => rest
    else text
  next.head? == some ']' || next.head? == some '-'

def ofEscape? : Escape → Option ClassSet
  | .literal char => some (literal char)
  | .charClass chars => some (charClass chars)
  | .assertion _ => none

def readItem (verbose : Bool) : Reader ClassSet := do
  let first ← readAtom verbose
  skip verbose
  match ← get with
  | '-' :: rest =>
      if isLastDash verbose rest then ofEscape? first
      else do
        set rest
        skip verbose
        match first, ← readAtom verbose with
        | .literal low, .literal high =>
            if low.char ≤ high.char then return range low high else failure
        | _, _ => failure
  | _ => ofEscape? first

def operation? : List Char → Option SetOperation
  | c :: d :: _ => if c = d then SetOperation.ofChar? c else none
  | _ => none

/-- The rest of a set in brackets. Every step takes a character at least, so
that as many steps as there are characters are enough. -/
def readRest (verbose : Bool) : Nat → Level → List Level → Reader Pattern
  | 0, _, _ => failure
  | steps + 1, level, around => do
      skip verbose
      match ← get with
      | '[' :: rest =>
          match ascii? rest with
          | some (item, after) => do
              set after
              readRest verbose steps (level.push item) around
          | none => do
              set rest
              readRest verbose steps (← readOpening verbose) (level :: around)
      | ']' :: rest => do
          set rest
          match around with
          | [] => return .bracketed level.negated level.body
          | outer :: around =>
              let item := bracketed level.negated level.body
              readRest verbose steps (outer.push item) around
      | text =>
          match operation? text with
          | some op => do
              set (text.drop 2)
              readRest verbose steps (level.operate op) around
          | none => do
              let item ← readItem verbose
              readRest verbose steps (level.push item) around

/-- A set in brackets, behind its first bracket. -/
def read (verbose : Bool) (steps : Nat) : Reader Pattern := do
  let level ← readOpening verbose
  readRest verbose steps level []

end ClassSet

namespace Pattern

/-- Alternatives that are being read: the finished ones, and the parts of the
one that is not finished; in both the last one is first. -/
structure Alternatives where
  finished : List Pattern
  parts : List Pattern

namespace Alternatives

def empty : Alternatives := ⟨[], []⟩

def push (alternatives : Alternatives) (part : Pattern) : Alternatives :=
  { alternatives with parts := part :: alternatives.parts }

def finish (alternatives : Alternatives) : Alternatives :=
  ⟨ofParts alternatives.parts.reverse :: alternatives.finished, []⟩

def close (alternatives : Alternatives) : Pattern :=
  if alternatives.finished.isEmpty then ofParts alternatives.parts.reverse
  else choice alternatives.finish.finished.reverse

/-- Repeats the last part. Flags alone cannot be repeated. -/
def repeatLast? (alternatives : Alternatives) (least : Nat) (most : Option Nat)
    (greedy : Bool) : Option Alternatives :=
  match alternatives.parts with
  | [] | .flags _ :: _ => none
  | last :: parts => some { alternatives with parts := repeated last least most greedy :: parts }

end Alternatives

/-- A group that is being read: what it is, whether the verbose form holds
behind it, and the alternatives that it stands among. -/
structure Opening where
  kind : GroupKind
  verbose : Bool
  outer : Alternatives

/-- Where the reading of a pattern stands: the innermost alternatives, the
groups around them, the form, the names of groups, and the number of groups that
are kept. -/
structure State where
  current : Alternatives
  around : List Opening
  verbose : Bool
  names : List (List Char)
  captures : Nat

namespace State

def start : State := ⟨.empty, [], false, [], 0⟩

def push (state : State) (part : Pattern) : State :=
  { state with current := state.current.push part }

def enter (state : State) (kind : GroupKind) (verbose : Bool) : State :=
  let opening : Opening := ⟨kind, state.verbose, state.current⟩
  { state with current := .empty, around := opening :: state.around, verbose }

/-- Enters a group whose matches are kept. -/
def capture (state : State) : State :=
  { state.enter (.capture (state.captures + 1)) state.verbose with captures := state.captures + 1 }

def leave? (state : State) : Option State :=
  match state.around with
  | [] => none
  | opening :: around =>
      let part := group opening.kind state.current.close
      some { state with current := opening.outer.push part, around, verbose := opening.verbose }

def repeatLast? (state : State) (least : Nat) (most : Option Nat) (greedy : Bool) :
    Option State :=
  (state.current.repeatLast? least most greedy).map fun current => { state with current }

end State

/-- Flags such as `i-x`, up to a colon or a closing parenthesis. Each flag and
the minus sign stand at most once, and a minus sign is not the last. -/
def flagChanges? (seen : List Char) (negated : Bool) :
    List Char → Option (FlagChanges × List Char)
  | [] => none
  | c :: rest =>
      if c = ':' ∨ c = ')' then if seen.head? = some '-' then none else some ([], c :: rest)
      else if seen.contains c then none
      else if c = '-' then flagChanges? (c :: seen) true rest
      else do
        let flag ← Flag.ofChar? c
        let (changes, after) ← flagChanges? (c :: seen) negated rest
        return ((flag, !negated) :: changes, after)

def isGroupName : List Char → Bool
  | [] => false
  | first :: rest =>
      (first == '_' || Unicode.alphabetic.contains first) && rest.all fun c =>
        "_.[]".toList.contains c || Unicode.alphanumeric.contains c

/-- What follows an opening parenthesis. There is neither look-ahead nor
look-behind, whose marks are no names and no flags. -/
def readOpening (state : State) : Reader State := do
  skip state.verbose
  match ← get with
  | '?' :: 'P' :: '<' :: rest | '?' :: '<' :: rest => do
      let name := rest.takeWhile (· != '>')
      unless isGroupName name && !state.names.contains name do failure
      set (rest.drop name.length)
      Reader.char '>'
      return { state.capture with names := name :: state.names }
  | '?' :: rest => do
      let (changes, after) ← flagChanges? [] false rest
      set (after.drop 1)
      let verbose := changes.apply .verbose state.verbose
      if after.head? = some ':' then return state.enter (.plain changes) verbose
      else if changes.isEmpty then failure
      else return { state.push (.flags changes) with verbose }
  | _ => return state.capture

/-- A decimal number with blanks around it, below `2 ^ 32`. -/
def readCount (verbose : Bool) : Reader Nat := do
  Reader.blanks
  let value ← Number.decimalNat? (← takeKept verbose Char.isDigit)
  Reader.blanks
  if value < 0x100000000 then return value else failure

def readCounts (verbose : Bool) : Reader (Nat × Option Nat) := do
  skip verbose
  let least ← readCount verbose
  let most ←
    if ← Reader.charIf ',' then
      skip verbose
      if (← Reader.peek?) = some '\x7D' then pure none
      else do
        let most ← readCount verbose
        if least ≤ most then pure (some most) else failure
    else pure (some least)
  Reader.char '\x7D'
  skip verbose
  return (least, most)

/-- Repeats the last part. A question mark behind that prefers fewer
repetitions. -/
def readRepeated (state : State) (least : Nat) (most : Option Nat) : Reader State := do
  let isLazy ← Reader.charIf '?'
  state.repeatLast? least most !isLazy

def ofEscape : Escape → Pattern
  | .literal char => literal char
  | .assertion place => assertion place
  | .charClass chars => charClass chars

/-- One step of reading a pattern that is not at its end. The given number is
not less than the number of characters behind the next one. -/
def step (steps : Nat) (state : State) : Reader State := do
  match ← Reader.next with
  | '(' => readOpening state
  | ')' => state.leave?
  | '|' => return { state with current := state.current.finish }
  | '[' => return state.push (← ClassSet.read state.verbose steps)
  | '?' => readRepeated state 0 (some 1)
  | '*' => readRepeated state 0 none
  | '+' => readRepeated state 1 none
  | '\x7B' => do
      let (least, most) ← readCounts state.verbose
      readRepeated state least most
  | '\\' => return state.push (ofEscape (← Escape.read state.verbose))
  | '.' => return state.push dot
  | '^' => return state.push (assertion .lineStart)
  | '$' => return state.push (assertion .lineEnd)
  | c => return state.push (literal ⟨c, false⟩)

/-- Reads the rest of a pattern. Every step takes a character at least, and one
more step sees that none is left. -/
def readRest : Nat → State → Reader Pattern
  | 0, _ => failure
  | steps + 1, state => do
      skip state.verbose
      if (← get).isEmpty then
        if state.around.isEmpty then return state.current.close else failure
      else
        let state ← step steps state
        readRest steps state

def ofText? (text : List Char) : Option Pattern :=
  (readRest (text.length + 1) .start).readAll? text

end Pattern

end ConfigNotation.Regex
