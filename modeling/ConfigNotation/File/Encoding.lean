import ConfigNotation.Text.Utf8

/-!
The encodings that a file literal can name. Text encodings are decoded strictly;
`base64` and `hex` show bytes in that notation.
-/

namespace ConfigNotation

inductive Encoding where
  | utf8 | utf16le | base64 | ascii | latin1 | binary | hex
  deriving DecidableEq, Repr, Inhabited

inductive DecodeFault where
  /-- The bytes up to this number are the longest part that can be read. -/
  | invalidUtf8 (offset : Nat)
  | oddUtf16Length (length : Nat)
  | invalidUtf16
  deriving DecidableEq, Repr

def DecodeFault.message : DecodeFault → String
  | invalidUtf8 offset => s!"invalid UTF-8 after byte {offset}"
  | oddUtf16Length length => s!"UTF-16LE input has odd length {length}"
  | invalidUtf16 => "invalid UTF-16LE sequence"

namespace Encoding

def name : Encoding → String
  | utf8 => "utf8"
  | utf16le => "utf16le"
  | base64 => "base64"
  | ascii => "ascii"
  | latin1 => "latin1"
  | binary => "binary"
  | hex => "hex"

def all : List Encoding := [utf8, utf16le, base64, ascii, latin1, binary, hex]

/-- The encoding with a name; case and dashes do not count. -/
def ofChars? (name : List Char) : Option Encoding :=
  let plain := (name.filter (· != '-')).map Char.toLower
  all.find? (·.name.toList == plain)

def ofName? (name : String) : Option Encoding := ofChars? name.toList

/-- Pairs of bytes as units of sixteen bits, the lower byte first. -/
def units : List UInt8 → List Nat
  | low :: high :: rest => (low.toNat + 256 * high.toNat) :: units rest
  | _ => []

/-- Decodes units; two surrogates of a pair form one character. -/
def decodeUnits? : List Nat → Option (List Char)
  | [] => some []
  | unit :: rest =>
      if unit < 0xD800 ∨ 0xE000 ≤ unit then (decodeUnits? rest).map (Char.ofNat unit :: ·)
      else
        match rest with
        | second :: rest =>
            if unit < 0xDC00 ∧ 0xDC00 ≤ second ∧ second < 0xE000 then
              let code := 0x10000 + (unit - 0xD800) * 0x400 + (second - 0xDC00)
              (decodeUnits? rest).map (Char.ofNat code :: ·)
            else none
        | [] => none

def hexDigit (value : Nat) : Char := Nat.digitChar value

/-- Two lower-case digits for each byte. -/
def hexText (bytes : List UInt8) : List Char :=
  bytes.flatMap fun byte => [hexDigit (byte.toNat / 16), hexDigit (byte.toNat % 16)]

def base64Digits : List Char :=
  "ABCDEFGHIJKLMNOPQRSTUVWXYZabcdefghijklmnopqrstuvwxyz0123456789+/".toList

def base64Digit (value : Nat) : Char := base64Digits.getD (value % 64) 'A'

/-- Four digits for three bytes; a shorter end is filled with equal signs. -/
def base64Text : List UInt8 → List Char
  | [] => []
  | [a] =>
      let n := a.toNat * 65536
      [base64Digit (n / 262144), base64Digit (n / 4096), '=', '=']
  | [a, b] =>
      let n := a.toNat * 65536 + b.toNat * 256
      [base64Digit (n / 262144), base64Digit (n / 4096), base64Digit (n / 64), '=']
  | a :: b :: c :: rest =>
      let n := a.toNat * 65536 + b.toNat * 256 + c.toNat
      base64Digit (n / 262144) :: base64Digit (n / 4096) :: base64Digit (n / 64) ::
        base64Digit n :: base64Text rest

def decode (encoding : Encoding) (bytes : List UInt8) : Except DecodeFault (List Char) :=
  match encoding with
  | utf8 => (Utf8.decode bytes).mapError .invalidUtf8
  | utf16le =>
      if bytes.length % 2 = 1 then .error (.oddUtf16Length bytes.length)
      else
        match decodeUnits? (units bytes) with
        | some text => .ok text
        | none => .error .invalidUtf16
  | base64 => .ok (base64Text bytes)
  | ascii => .ok (bytes.map fun byte => Char.ofNat (byte.toNat % 128))
  | latin1 | binary => .ok (bytes.map fun byte => Char.ofNat byte.toNat)
  | hex => .ok (hexText bytes)

end Encoding

/-- The contents of a file, with the encoding that its text form is in. -/
structure Buffer where
  encoding : Encoding
  bytes : List UInt8
  deriving DecidableEq, Repr

/-- The text of a buffer. Bytes that are no text in its encoding are shown as
UTF-8 with replacement characters. -/
def Buffer.text (buffer : Buffer) : String :=
  String.ofList <|
    match buffer.encoding.decode buffer.bytes with
    | .ok text => text
    | .error _ => Utf8.decodeLossy buffer.bytes

end ConfigNotation
