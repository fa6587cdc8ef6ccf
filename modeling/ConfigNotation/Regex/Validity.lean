import ConfigNotation.Regex.Machine
import ConfigNotation.Regex.Reader

/-!
Whether a text is a regular expression. It has to be a pattern that is not nested
too deep, that has a core form, and whose machines are not too large.
-/

namespace ConfigNotation.Regex

def depthLimit : Nat := 250

/-- What the flags behind a regular expression stand for. The other ones do not
bear on what is a pattern. -/
def Options.ofFlags (flags : List Char) : Options where
  caseless := flags.contains 'i'
  multiLine := flags.contains 'm'
  dotAll := flags.contains 's'
  swapGreed := false
  unicode := true
  crlf := false

def core? (pattern flags : List Char) : Option Core := do
  let pattern ← Pattern.ofText? pattern
  let (core, _) ← if pattern.depth ≤ depthLimit then pattern.core.run (.ofFlags flags) else none
  return core

def isValid (pattern flags : List Char) : Bool := (core? pattern flags).any Core.isBuildable

end ConfigNotation.Regex
