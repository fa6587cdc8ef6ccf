/-!
UTF-8 as a machine that reads one byte at a time. It refuses a byte as soon as
no character can be written with the bytes up to it.
-/

namespace ConfigNotation.Utf8

/-- Between two characters, or inside one: how many bytes are owed, the least
and the greatest that the next one can be, and the bits that were read. -/
inductive State where
  | start
  | inside (owed low high value : Nat)
  deriving DecidableEq, Repr

inductive Step where
  | refused
  | more (state : State)
  | complete (c : Char)
  deriving DecidableEq, Repr

/-- The first byte of a character. It fixes the number of bytes, and the range
of the second one, so that every character has one form and is no surrogate. -/
def first (byte : Nat) : Step :=
  if byte < 0x80 then .complete (Char.ofNat byte)
  else if byte < 0xC2 then .refused
  else if byte < 0xE0 then .more (.inside 1 0x80 0xBF (byte - 0xC0))
  else if byte = 0xE0 then .more (.inside 2 0xA0 0xBF 0)
  else if byte = 0xED then .more (.inside 2 0x80 0x9F 0xD)
  else if byte < 0xF0 then .more (.inside 2 0x80 0xBF (byte - 0xE0))
  else if byte = 0xF0 then .more (.inside 3 0x90 0xBF 0)
  else if byte < 0xF4 then .more (.inside 3 0x80 0xBF (byte - 0xF0))
  else if byte = 0xF4 then .more (.inside 3 0x80 0x8F 4)
  else .refused

def step (byte : Nat) : State → Step
  | .start => first byte
  | .inside owed low high value =>
      let value := value * 64 + byte % 64
      if byte < low ∨ high < byte then .refused
      else if owed ≤ 1 then .complete (Char.ofNat value)
      else .more (.inside (owed - 1) 0x80 0xBF value)

/-- Decodes bytes. The failure is the number of bytes before the character that
cannot be read, which starts at `offset` and has had `size` bytes so far. -/
def decodeFrom (offset size : Nat) (state : State) : List UInt8 → Except Nat (List Char)
  | [] => if state = .start then .ok [] else .error offset
  | byte :: rest =>
      match step byte.toNat state with
      | .refused => .error offset
      | .more next => decodeFrom offset (size + 1) next rest
      | .complete c => (decodeFrom (offset + size + 1) 0 .start rest).map (c :: ·)

def decode (bytes : List UInt8) : Except Nat (List Char) := decodeFrom 0 0 .start bytes

def replacement : Char := '\uFFFD'

/-- Decodes bytes and replaces each run of bytes that starts a character and is
cut short by one replacement character. -/
def decodeLossyFrom (state : State) : List UInt8 → List Char
  | [] => if state = .start then [] else [replacement]
  | byte :: rest =>
      match step byte.toNat state with
      | .complete c => c :: decodeLossyFrom .start rest
      | .more next => decodeLossyFrom next rest
      | .refused =>
          let afresh := match first byte.toNat with
            | .complete c => c :: decodeLossyFrom .start rest
            | .more next => decodeLossyFrom next rest
            | .refused => replacement :: decodeLossyFrom .start rest
          if state = .start then afresh else replacement :: afresh

def decodeLossy (bytes : List UInt8) : List Char := decodeLossyFrom .start bytes

def encodeChar (c : Char) : List UInt8 :=
  let code := c.toNat
  let tail (unit : Nat) : UInt8 := .ofNat (0x80 + code / unit % 0x40)
  if code < 0x80 then [.ofNat code]
  else if code < 0x800 then [.ofNat (0xC0 + code / 0x40), tail 1]
  else if code < 0x10000 then [.ofNat (0xE0 + code / 0x1000), tail 0x40, tail 1]
  else [.ofNat (0xF0 + code / 0x40000), tail 0x1000, tail 0x40, tail 1]

def encode (text : List Char) : List UInt8 := text.flatMap encodeChar

end ConfigNotation.Utf8
