import ConfigNotation.Unicode.CharSet

/-!
Classes of ASCII characters, by their names, and letters of ASCII that differ in
case only.
-/

namespace ConfigNotation.Unicode

def ofCharRanges (ranges : List (Char × Char)) : CharSet :=
  .ofRanges (ranges.map fun (low, high) => (low.toNat, high.toNat))

def asciiDigit : CharSet := ofCharRanges [('0', '9')]

def asciiSpace : CharSet := ofCharRanges [('\t', '\r'), (' ', ' ')]

def asciiLower : CharSet := ofCharRanges [('a', 'z')]

def asciiUpper : CharSet := ofCharRanges [('A', 'Z')]

def asciiAlpha : CharSet := asciiUpper.union asciiLower

def asciiAlnum : CharSet := asciiDigit.union asciiAlpha

def asciiWord : CharSet := asciiAlnum.union (.ofChar '_')

def asciiClasses : List (String × CharSet) :=
  [("alnum", asciiAlnum),
    ("alpha", asciiAlpha),
    ("ascii", .ascii),
    ("blank", ofCharRanges [('\t', '\t'), (' ', ' ')]),
    ("cntrl", ofCharRanges [('\x00', '\x1F'), ('\x7F', '\x7F')]),
    ("digit", asciiDigit),
    ("graph", ofCharRanges [('!', '~')]),
    ("lower", asciiLower),
    ("print", ofCharRanges [(' ', '~')]),
    ("punct", ofCharRanges [('!', '/'), (':', '@'), ('[', '\x60'), ('\x7B', '~')]),
    ("space", asciiSpace),
    ("upper", asciiUpper),
    ("word", asciiWord),
    ("xdigit", ofCharRanges [('0', '9'), ('A', 'F'), ('a', 'f')])]

end ConfigNotation.Unicode

/-- A set with all characters that differ from a member only in the case of a
letter of ASCII. The two forms of a letter lie 32 apart. -/
def ConfigNotation.CharSet.closeUnderAsciiCase (set : CharSet) : CharSet :=
  let uppers := (set.inter Unicode.asciiUpper).ranges
  let lowers := (set.inter Unicode.asciiLower).ranges
  .unionAll [set, .ofRanges (uppers.map fun (low, high) => (low + 32, high + 32)),
    .ofRanges (lowers.map fun (low, high) => (low - 32, high - 32))]
