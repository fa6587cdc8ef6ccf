/-!
Sets of characters, as ranges of code points. The tables of properties are
written in a compact form, which is decoded here.
-/

namespace ConfigNotation

/-- A set of characters: ranges of code points in increasing order, with a gap
between any two of them, and without surrogates. -/
structure CharSet where
  ranges : List (Nat × Nat)
  deriving DecidableEq, Repr, Inhabited

namespace CharSet

def lastCode : Nat := 0x10FFFF

/-- Joins ranges that overlap or touch, in a list that is ordered by their
starts. -/
def joinRanges : List (Nat × Nat) → List (Nat × Nat)
  | [] => []
  | [range] => [range]
  | (low, high) :: (low', high') :: rest =>
      if low' ≤ high + 1 then joinRanges ((low, max high high') :: rest)
      else (low, high) :: joinRanges ((low', high') :: rest)
termination_by ranges => ranges.length

def withoutSurrogates (range : Nat × Nat) : List (Nat × Nat) :=
  [(range.1, min range.2 0xD7FF), (max range.1 0xE000, range.2)].filter fun (low, high) =>
    low ≤ high

def ofRanges (ranges : List (Nat × Nat)) : CharSet :=
  ⟨joinRanges ((ranges.flatMap withoutSurrogates).mergeSort fun first second =>
    first.1 ≤ second.1)⟩

def empty : CharSet := ⟨[]⟩

def ofChar (c : Char) : CharSet := ⟨[(c.toNat, c.toNat)]⟩

def ofRange (low high : Char) : CharSet := ofRanges [(low.toNat, high.toNat)]

def full : CharSet := ofRanges [(0, lastCode)]

def ascii : CharSet := ⟨[(0, 0x7F)]⟩

def isEmpty (set : CharSet) : Bool := set.ranges.isEmpty

def containsCode (set : CharSet) (code : Nat) : Bool :=
  set.ranges.any fun (low, high) => low ≤ code && code ≤ high

def contains (set : CharSet) (c : Char) : Bool := set.containsCode c.toNat

def isAscii (set : CharSet) : Bool := set.ranges.all fun (_, high) => high < 0x80

def single? (set : CharSet) : Option Char :=
  match set.ranges with
  | [(low, high)] => if low = high then some (Char.ofNat low) else none
  | _ => none

def union (first second : CharSet) : CharSet := ofRanges (first.ranges ++ second.ranges)

def unionAll (sets : List CharSet) : CharSet := ofRanges (sets.flatMap ranges)

def gaps (start : Nat) : List (Nat × Nat) → List (Nat × Nat)
  | [] => if start ≤ lastCode then [(start, lastCode)] else []
  | (low, high) :: rest =>
      if start < low then (start, low - 1) :: gaps (high + 1) rest else gaps (high + 1) rest

def complement (set : CharSet) : CharSet := ofRanges (gaps 0 set.ranges)

def inter (first second : CharSet) : CharSet :=
  (first.complement.union second.complement).complement

def diff (first second : CharSet) : CharSet := first.inter second.complement

def symmDiff (first second : CharSet) : CharSet :=
  (first.diff second).union (second.diff first)

/-- The value of a digit of a table in base 31, and whether it ends a number. A
digit inside a number is one of `0` to `9` and `a` to `u`, a last digit one of
`A` to `Z` and `v` to `z`. -/
def tableDigit? (c : Char) : Option (Nat × Bool) :=
  if c.isDigit then some (c.toNat - '0'.toNat, false)
  else if 'a' ≤ c ∧ c ≤ 'u' then some (c.toNat - 'a'.toNat + 10, false)
  else if 'A' ≤ c ∧ c ≤ 'Z' then some (c.toNat - 'A'.toNat, true)
  else if 'v' ≤ c ∧ c ≤ 'z' then some (c.toNat - 'v'.toNat + 26, true)
  else none

/-- The numbers of a table, behind the digits of a number that has begun. Other
characters do not count. -/
def tableNumbers (begun : Nat) : List Char → List Nat
  | [] => []
  | c :: rest =>
      match tableDigit? c with
      | some (digit, true) => (begun * 31 + digit) :: tableNumbers 0 rest
      | some (digit, false) => tableNumbers (begun * 31 + digit) rest
      | none => tableNumbers begun rest

/-- The ranges of a table, which gives by turns the size of a gap and how far
the last code point of a range lies behind its first. -/
def tableRanges (start : Nat) : List Nat → List (Nat × Nat)
  | gap :: reach :: rest =>
      (start + gap, start + gap + reach) :: tableRanges (start + gap + reach + 1) rest
  | _ => []

def ofTable (table : String) : CharSet :=
  ofRanges (tableRanges 0 (tableNumbers 0 table.toList))

end CharSet

end ConfigNotation
