import ConfigNotation.Number.Text
import ConfigNotation.Proofs.Text.Utf16

/-!
Which bytes are read as which text. The text encodings read a text from its own bytes and refuse
all others, with a failure that tells how far a text goes. The notations read all bytes, and the
text that shows them can be read back.
-/

namespace ConfigNotation.Encoding

def hexBytes? : List Char → Option (List UInt8)
  | [] => some []
  | [_] => none
  | high :: low :: rest => do
      let high ← Number.digitValue? 16 high
      let low ← Number.digitValue? 16 low
      return .ofNat (high * 16 + low) :: (← hexBytes? rest)

def base64Value? (c : Char) : Option Nat :=
  if 'A' ≤ c ∧ c ≤ 'Z' then some (c.toNat - 'A'.toNat)
  else if 'a' ≤ c ∧ c ≤ 'z' then some (c.toNat - 'a'.toNat + 26)
  else if '0' ≤ c ∧ c ≤ '9' then some (c.toNat - '0'.toNat + 52)
  else if c = '+' then some 62
  else if c = '/' then some 63
  else none

/-- The bytes that a last group shows which is filled with equal signs. The bits
that are left over in it have to be zero. -/
def filledGroup? (a b c : Char) : Option (List UInt8) := do
  let n := (← base64Value? a) * 64 + (← base64Value? b)
  if c = '=' then
    if n % 16 = 0 then some [.ofNat (n / 16)] else none
  else do
    let n := n * 64 + (← base64Value? c)
    if n % 4 = 0 then some [.ofNat (n / 1024), .ofNat (n / 4 % 256)] else none

def base64Bytes? : List Char → Option (List UInt8)
  | [] => some []
  | a :: b :: c :: d :: rest =>
      if d = '=' then if rest.isEmpty then filledGroup? a b c else none
      else do
        let n := (((← base64Value? a) * 64 + (← base64Value? b)) * 64 + (← base64Value? c)) * 64 +
          (← base64Value? d)
        return .ofNat (n / 65536) :: .ofNat (n / 256 % 256) :: .ofNat (n % 256) ::
          (← base64Bytes? rest)
  | _ => none

theorem digitValue?_hexDigit {value : Nat} (h : value < 16) :
    Number.digitValue? 16 (hexDigit value) = some value := by
  revert value
  decide

theorem hexBytes?_hexText (bytes : List UInt8) : hexBytes? (hexText bytes) = some bytes := by
  induction bytes with
  | nil => rfl
  | cons byte rest ih =>
      have hbyte := byte.toNat_lt
      rw [hexText] at ih ⊢
      rw [List.flatMap_cons, List.cons_append, List.singleton_append, hexBytes?,
        digitValue?_hexDigit (by omega), digitValue?_hexDigit (by omega), ih]
      simp only [Option.bind_eq_bind, Option.bind_some]
      rw [show byte.toNat / 16 * 16 + byte.toNat % 16 = byte.toNat by omega, UInt8.ofNat_toNat]
      rfl

theorem base64Value?_base64Digit (value : Nat) :
    base64Value? (base64Digit value) = some (value % 64) := by
  have hsmall : ∀ value < 64, base64Value? (base64Digits.getD value 'A') = some value := by
    decide +kernel
  exact hsmall _ (Nat.mod_lt _ (by decide))

theorem base64Digit_ne_equals (value : Nat) : base64Digit value ≠ '=' := by
  intro heq
  have hvalue := base64Value?_base64Digit value
  rw [heq] at hvalue
  cases hvalue

theorem filledGroup?_eq {a b : Char} {first second : Nat} (ha : base64Value? a = some first)
    (hb : base64Value? b = some second) (c : Char) :
    filledGroup? a b c =
      if c = '=' then
        if (first * 64 + second) % 16 = 0 then some [.ofNat ((first * 64 + second) / 16)] else none
      else
        (base64Value? c).bind fun third =>
          if ((first * 64 + second) * 64 + third) % 4 = 0 then
            some [.ofNat (((first * 64 + second) * 64 + third) / 1024),
              .ofNat (((first * 64 + second) * 64 + third) / 4 % 256)]
          else none := by
  rw [filledGroup?, ha, hb]
  rfl

/-- A last group of which two digits show a byte. -/
theorem base64Bytes?_one {first second value : Nat}
    (hvalue : first % 64 * 64 + second % 64 = value) :
    base64Bytes? [base64Digit first, base64Digit second, '=', '='] =
      if value % 16 = 0 then some [.ofNat (value / 16)] else none := by
  rw [base64Bytes?, if_pos rfl, List.isEmpty_nil, if_pos rfl,
    filledGroup?_eq (base64Value?_base64Digit _) (base64Value?_base64Digit _), if_pos rfl, hvalue]

/-- A last group of which three digits show two bytes. -/
theorem base64Bytes?_two {first second third value : Nat}
    (hvalue : (first % 64 * 64 + second % 64) * 64 + third % 64 = value) :
    base64Bytes? [base64Digit first, base64Digit second, base64Digit third, '='] =
      if value % 4 = 0 then some [.ofNat (value / 1024), .ofNat (value / 4 % 256)] else none := by
  rw [base64Bytes?, if_pos rfl, List.isEmpty_nil, if_pos rfl,
    filledGroup?_eq (base64Value?_base64Digit _) (base64Value?_base64Digit _),
    if_neg (base64Digit_ne_equals _), base64Value?_base64Digit, Option.bind_some, hvalue]

/-- A group of four digits. -/
theorem base64Bytes?_three {first second third last value : Nat} {rest : List Char}
    {bytes : List UInt8} (hrest : base64Bytes? rest = some bytes)
    (hvalue : ((first % 64 * 64 + second % 64) * 64 + third % 64) * 64 + last % 64 = value) :
    base64Bytes? (base64Digit first :: base64Digit second :: base64Digit third ::
      base64Digit last :: rest) =
        some (.ofNat (value / 65536) :: .ofNat (value / 256 % 256) :: .ofNat (value % 256) ::
          bytes) := by
  rw [base64Bytes?, if_neg (base64Digit_ne_equals _), base64Value?_base64Digit,
    base64Value?_base64Digit, base64Value?_base64Digit, base64Value?_base64Digit, hrest, ← hvalue]
  rfl

/-- Bytes are read back from their text in base 64, with the signs that fill up
its end. -/
theorem base64Bytes?_base64Text (bytes : List UInt8) :
    base64Bytes? (base64Text bytes) = some bytes := by
  induction bytes using base64Text.induct with
  | case1 => rfl
  | case2 a =>
      have ha := a.toNat_lt
      rw [base64Text, base64Bytes?_one (by omega : _ = a.toNat * 16), if_pos (Nat.mul_mod_left _ _),
        Nat.mul_div_cancel _ (by decide), UInt8.ofNat_toNat]
  | case3 a b =>
      have ha := a.toNat_lt
      have hb := b.toNat_lt
      rw [base64Text, base64Bytes?_two (by omega : _ = (a.toNat * 256 + b.toNat) * 4),
        if_pos (Nat.mul_mod_left _ _), Nat.mul_div_cancel _ (by decide),
        show (a.toNat * 256 + b.toNat) * 4 / 1024 = a.toNat by omega,
        show (a.toNat * 256 + b.toNat) % 256 = b.toNat by omega, UInt8.ofNat_toNat,
        UInt8.ofNat_toNat]
  | case4 a b c rest ih =>
      have ha := a.toNat_lt
      have hb := b.toNat_lt
      have hc := c.toNat_lt
      rw [base64Text,
        base64Bytes?_three ih (by omega : _ = a.toNat * 65536 + b.toNat * 256 + c.toNat),
        show (a.toNat * 65536 + b.toNat * 256 + c.toNat) / 65536 = a.toNat by omega,
        show (a.toNat * 65536 + b.toNat * 256 + c.toNat) / 256 % 256 = b.toNat by omega,
        show (a.toNat * 65536 + b.toNat * 256 + c.toNat) % 256 = c.toNat by omega,
        UInt8.ofNat_toNat, UInt8.ofNat_toNat, UInt8.ofNat_toNat]

/-- Every byte is a character of its own. -/
theorem map_ofNat_injective :
    Function.Injective fun bytes : List UInt8 => bytes.map fun byte => Char.ofNat byte.toNat := by
  refine List.map_injective_iff.2 fun first second h => ?_
  have hcode (byte : UInt8) : (Char.ofNat byte.toNat).toNat = byte.toNat :=
    Utf8.toNat_ofNat_of_lt (.inl (Nat.lt_trans byte.toNat_lt (by decide)))
  rw [← UInt8.toNat_inj, ← hcode first, ← hcode second]
  exact congrArg Char.toNat h

theorem decode_utf8 (bytes : List UInt8) :
    utf8.decode bytes = (Utf8.decode bytes).mapError .invalidUtf8 := rfl

/-- Bytes are text in UTF-8 exactly if they are the encoding of this text; there
is no other way to write it. -/
theorem decode_utf8_eq_ok_iff {bytes : List UInt8} {text : List Char} :
    utf8.decode bytes = .ok text ↔ bytes = Utf8.encode text := by
  rw [decode_utf8, ← Utf8.decode_eq_ok_iff]
  cases Utf8.decode bytes <;> simp [Except.mapError]

/-- Other bytes are refused, and the offset that is told is the length of the
longest first part that is text. -/
theorem decode_utf8_refused {bytes : List UInt8} (h : ∀ text, bytes ≠ Utf8.encode text) :
    ∃ offset, utf8.decode bytes = .error (.invalidUtf8 offset) ∧
      (∃ text, Utf8.encode text <+: bytes ∧ (Utf8.encode text).length = offset) ∧
      ∀ text, Utf8.encode text <+: bytes → (Utf8.encode text).length ≤ offset := by
  rw [decode_utf8]
  cases hdecode : Utf8.decode bytes with
  | ok text => exact absurd (Utf8.decode_eq_ok_iff.1 hdecode) (h text)
  | error offset => exact ⟨offset, rfl, Utf8.decode_eq_error hdecode⟩

theorem decode_utf16le_of_odd {bytes : List UInt8} (h : bytes.length % 2 = 1) :
    utf16le.decode bytes = .error (.oddUtf16Length bytes.length) := if_pos h

theorem decode_utf16le_of_even {bytes : List UInt8} (h : bytes.length % 2 = 0) :
    utf16le.decode bytes = ((decodeUnits? (units bytes)).elim (.error .invalidUtf16) .ok) := by
  refine (if_neg (by omega)).trans ?_
  cases decodeUnits? (units bytes) <;> rfl

/-- Bytes are text in UTF-16 exactly if they are its units, the lower byte of
each in front. -/
theorem decode_utf16le_eq_ok_iff {bytes : List UInt8} {text : List Char} :
    utf16le.decode bytes = .ok text ↔ bytes = Utf16.encode text := by
  obtain hodd | heven : bytes.length % 2 = 1 ∨ bytes.length % 2 = 0 := by omega
  · rw [decode_utf16le_of_odd hodd]
    refine iff_of_false nofun fun h => ?_
    rw [h, Utf16.length_encode] at hodd
    cases hodd
  · rw [decode_utf16le_of_even heven, ← Utf16.decodeUnits?_units_eq_some_iff heven]
    cases decodeUnits? (units bytes) <;> simp

/-- Other bytes are refused for their odd number, if it is odd, and for a
surrogate without its other half otherwise. -/
theorem decode_utf16le_refused {bytes : List UInt8} (h : ∀ text, bytes ≠ Utf16.encode text) :
    utf16le.decode bytes =
      .error (if bytes.length % 2 = 1 then .oddUtf16Length bytes.length else .invalidUtf16) := by
  split
  · next hodd => exact decode_utf16le_of_odd hodd
  · next heven =>
    rw [decode_utf16le_of_even (by omega)]
    cases hread : decodeUnits? (units bytes) with
    | none => rfl
    | some text => exact absurd ((Utf16.decodeUnits?_units_eq_some_iff (by omega)).1 hread) (h text)

/-- The encodings whose texts show bytes. -/
theorem decode_notation {encoding : Encoding} (h : encoding ∈ [hex, base64, latin1, binary]) :
    ∃ shown : List UInt8 → List Char, Function.Injective shown ∧
      encoding.decode = fun bytes => .ok (shown bytes) := by
  have hof {back : List Char → Option (List UInt8)} {shown : List UInt8 → List Char}
      (hback : ∀ bytes, back (shown bytes) = some bytes) : Function.Injective shown :=
    fun first second heq => Option.some.inj (by rw [← hback first, heq, hback])
  rw [List.mem_cons, List.mem_cons, List.mem_cons, List.mem_singleton] at h
  obtain rfl | rfl | rfl | rfl := h
  · exact ⟨hexText, hof hexBytes?_hexText, rfl⟩
  · exact ⟨base64Text, hof base64Bytes?_base64Text, rfl⟩
  · exact ⟨_, map_ofNat_injective, rfl⟩
  · exact ⟨_, map_ofNat_injective, rfl⟩

/-- Reading bytes loses nothing, and only what is a text is read. UTF-8 and
UTF-16 read the bytes of every text as the text and refuse all others: UTF-8
with the length of the longest text that the bytes begin with, UTF-16 with an
odd length, if there is one, and with a surrogate that stands alone otherwise.
The notations and the encodings with one character for each byte never fail, and
the bytes can be told from the text; those in hexadecimal or in base 64 by
reading its digits. -/
theorem decode_lossless_and_strict :
    (∀ (bytes : List UInt8) (text : String),
      utf8.decode bytes = .ok text.toList ↔ bytes = text.toUTF8.data.toList) ∧
    (∀ bytes : List UInt8, (¬ ∃ text : String, bytes = text.toUTF8.data.toList) →
      ∃ offset, utf8.decode bytes = .error (.invalidUtf8 offset) ∧
        (∃ text : String, text.toUTF8.data.toList <+: bytes ∧ text.utf8ByteSize = offset) ∧
        ∀ text : String, text.toUTF8.data.toList <+: bytes → text.utf8ByteSize ≤ offset) ∧
    (∀ (bytes : List UInt8) (text : String),
      utf16le.decode bytes = .ok text.toList ↔ bytes = Utf16.encode text.toList) ∧
    (∀ bytes : List UInt8, (¬ ∃ text : String, bytes = Utf16.encode text.toList) →
      utf16le.decode bytes =
        .error (if bytes.length % 2 = 1 then .oddUtf16Length bytes.length else .invalidUtf16)) ∧
    (∀ encoding ∈ [hex, base64, latin1, binary],
      (∀ bytes, ∃ text, encoding.decode bytes = .ok text) ∧
        Function.Injective encoding.decode) ∧
    ∀ bytes, (hex.decode bytes).toOption.bind hexBytes? = some bytes ∧
      (base64.decode bytes).toOption.bind base64Bytes? = some bytes := by
  have hutf8 (text : List Char) : Utf8.encode text = (String.ofList text).toUTF8.data.toList := by
    rw [← Utf8.encode_toList, String.toList_ofList]
  refine ⟨fun bytes text => ?_, fun bytes hbytes => ?_,
    fun bytes text => decode_utf16le_eq_ok_iff, fun bytes hbytes => ?_, fun encoding hmem => ?_,
    fun bytes => ⟨hexBytes?_hexText bytes, base64Bytes?_base64Text bytes⟩⟩
  · rw [decode_utf8_eq_ok_iff, Utf8.encode_toList]
  · obtain ⟨offset, hdecode, ⟨text, htext, hlength⟩, hlongest⟩ := decode_utf8_refused
      fun text htext => hbytes ⟨String.ofList text, htext.trans (hutf8 text)⟩
    refine ⟨offset, hdecode, ⟨String.ofList text, hutf8 text ▸ htext, ?_⟩, fun other hother => ?_⟩
    · rw [← Utf8.length_encode_toList, String.toList_ofList, hlength]
    · rw [← Utf8.length_encode_toList]
      exact hlongest _ (Utf8.encode_toList other ▸ hother)
  · refine decode_utf16le_refused fun text htext => hbytes ⟨String.ofList text, ?_⟩
    rw [String.toList_ofList, htext]
  · obtain ⟨shown, hinjective, hdecode⟩ := decode_notation hmem
    rw [hdecode]
    exact ⟨fun bytes => ⟨shown bytes, rfl⟩,
      fun first second heq => hinjective (Except.ok.inj heq)⟩

end ConfigNotation.Encoding
