import ConfigNotation.Text.Utf8
import ConfigNotation.Unicode.CharSet

/-!
The characters of a set as bytes. All characters of a set are covered by boxes: in
each place of a box any byte of a range may stand, whatever the other bytes are.
-/

namespace ConfigNotation.Regex

/-- A range of bytes for each place. -/
abbrev Box := List (Nat × Nat)

namespace Box

/-- The boxes of one place more, which has the same byte in all of them. -/
def behind (byte : Nat) (boxes : List Box) : List Box := boxes.map ((byte, byte) :: ·)

/-- The box of all bytes from one to another, with any bytes behind them; none
if the bytes are in the wrong order. -/
def wide (low high places : Nat) : List Box :=
  if low ≤ high then [(low, high) :: List.replicate places (0x80, 0xBF)] else []

/-- Boxes of the inner bytes of characters that are not below the given ones. -/
def atLeast : List Nat → List Box
  | [] => [[]]
  | byte :: rest =>
      if rest.all (· == 0x80) then wide byte 0xBF rest.length
      else behind byte (atLeast rest) ++ wide (byte + 1) 0xBF rest.length

/-- Boxes of the inner bytes of characters that are not above the given ones. -/
def atMost : List Nat → List Box
  | [] => [[]]
  | byte :: rest =>
      if rest.all (· == 0xBF) then wide 0x80 byte rest.length
      else wide 0x80 (byte - 1) rest.length ++ behind byte (atMost rest)

/-- Boxes of what lies between two characters of equally many bytes. -/
def between : List Nat → List Nat → List Box
  | low :: lows, high :: highs =>
      if low = high then behind low (between lows highs)
      else
        let isFirstFull := lows.all (· == 0x80)
        let isLastFull := highs.all (· == 0xBF)
        (if isFirstFull then [] else behind low (atLeast lows)) ++
          wide (if isFirstFull then low else low + 1) (if isLastFull then high else high - 1)
            lows.length ++
          (if isLastFull then [] else behind high (atMost highs))
  | _, _ => [[]]

/-- The code points that are written in one byte, in two, in three and in
four. -/
def lengthRanges : List (Nat × Nat) :=
  [(0, 0x7F), (0x80, 0x7FF), (0x800, 0xFFFF), (0x10000, 0x10FFFF)]

def bytes (code : Nat) : List Nat := (Utf8.encodeChar (Char.ofNat code)).map UInt8.toNat

def ofRange (low high : Nat) : List Box :=
  lengthRanges.flatMap fun (first, last) =>
    let low := max low first
    let high := min high last
    if low ≤ high then between (bytes low) (bytes high) else []

def ofSet (set : CharSet) : List Box := set.ranges.flatMap fun (low, high) => ofRange low high

end Box

end ConfigNotation.Regex
