import Mathlib.Data.List.Basic
import ConfigNotation.File.Encoding
import ConfigNotation.Proofs.Text.Utf8

/-!
Texts as units of sixteen bits, the lower byte of each first. Reading units undoes writing them,
and all units that can be read are those of a text: a surrogate without the other one of its pair
cannot be read.
-/

namespace ConfigNotation.Utf16

/-- The units of a character. What does not fit into one unit is told by a high
surrogate and a low one, with ten bits in each. -/
def unitsOf (c : Char) : List Nat :=
  if c.toNat < 0x10000 then [c.toNat]
  else [0xD800 + (c.toNat - 0x10000) / 0x400, 0xDC00 + (c.toNat - 0x10000) % 0x400]

def bytesOf (unit : Nat) : List UInt8 := [.ofNat (unit % 0x100), .ofNat (unit / 0x100)]

def encode (text : List Char) : List UInt8 := (text.flatMap unitsOf).flatMap bytesOf

theorem toNat_valid (c : Char) : c.toNat < 0xD800 ∨ 0xDFFF < c.toNat ∧ c.toNat < 0x110000 := c.valid

theorem lt_of_mem_unitsOf {c : Char} {unit : Nat} (h : unit ∈ unitsOf c) : unit < 0x10000 := by
  have hvalid := toNat_valid c
  rw [unitsOf] at h
  split at h <;> simp only [List.mem_cons, List.not_mem_nil, or_false] at h <;> omega

open Encoding

theorem decodeUnits?_single {unit : Nat} (h : unit < 0xD800 ∨ 0xE000 ≤ unit) (rest : List Nat) :
    decodeUnits? (unit :: rest) = (decodeUnits? rest).map (Char.ofNat unit :: ·) := by
  rw [decodeUnits?.eq_def]
  exact if_pos h

theorem decodeUnits?_pair {high low : Nat} (h : 0xD800 ≤ high ∧ high < 0xE000) (rest : List Nat) :
    decodeUnits? (high :: low :: rest) =
      if high < 0xDC00 ∧ 0xDC00 ≤ low ∧ low < 0xE000 then
        (decodeUnits? rest).map
          (Char.ofNat (0x10000 + (high - 0xD800) * 0x400 + (low - 0xDC00)) :: ·)
      else none := by
  rw [decodeUnits?.eq_def]
  exact if_neg (by omega)

/-- The units of a character are read as the character. -/
theorem decodeUnits?_unitsOf (c : Char) (rest : List Nat) :
    decodeUnits? (unitsOf c ++ rest) = (decodeUnits? rest).map (c :: ·) := by
  have hvalid := toNat_valid c
  rw [unitsOf]
  split
  · rw [List.singleton_append, decodeUnits?_single (by omega), Char.ofNat_toNat]
  · have hcode : 0x10000 + (0xD800 + (c.toNat - 0x10000) / 0x400 - 0xD800) * 0x400 +
        (0xDC00 + (c.toNat - 0x10000) % 0x400 - 0xDC00) = c.toNat := by omega
    rw [List.cons_append, List.singleton_append, decodeUnits?_pair (by omega), if_pos (by omega),
      hcode, Char.ofNat_toNat]

theorem decodeUnits?_flatMap (text : List Char) :
    decodeUnits? (text.flatMap unitsOf) = some text := by
  induction text with
  | nil => rfl
  | cons c text ih => rw [List.flatMap_cons, decodeUnits?_unitsOf, ih, Option.map_some]

/-- What can be read are the units of a text. -/
theorem eq_of_decodeUnits? {units : List Nat} {text : List Char}
    (hsmall : ∀ unit ∈ units, unit < 0x10000) (h : decodeUnits? units = some text) :
    units = text.flatMap unitsOf := by
  induction units using decodeUnits?.induct generalizing text with
  | case1 =>
      obtain rfl := Option.some.inj h
      rfl
  | case2 unit rest hsingle ih =>
      obtain ⟨hunit, hrest⟩ := List.forall_mem_cons.1 hsmall
      rw [decodeUnits?_single hsingle] at h
      obtain ⟨text, htext, rfl⟩ := Option.map_eq_some_iff.1 h
      have hcode := Utf8.toNat_ofNat_of_lt (n := unit) (by omega)
      rw [List.flatMap_cons, ← ih hrest htext, unitsOf, hcode, if_pos hunit, List.singleton_append]
  | case3 high hhigh low rest hpair ih =>
      obtain ⟨-, hrest⟩ := List.forall_mem_cons.1 hsmall
      obtain ⟨-, hrest⟩ := List.forall_mem_cons.1 hrest
      rw [decodeUnits?_pair (by omega), if_pos hpair] at h
      obtain ⟨text, htext, rfl⟩ := Option.map_eq_some_iff.1 h
      obtain ⟨code, hcode⟩ : ∃ code, code =
        0x10000 + (high - 0xD800) * 0x400 + (low - 0xDC00) := ⟨_, rfl⟩
      rw [List.flatMap_cons, ← ih hrest htext, ← hcode, unitsOf,
        Utf8.toNat_ofNat_of_lt (by omega), if_neg (by omega),
        show 0xD800 + (code - 0x10000) / 0x400 = high by omega,
        show 0xDC00 + (code - 0x10000) % 0x400 = low by omega]
      rfl
  | case4 high hhigh low rest hpair =>
      rw [decodeUnits?_pair (by omega), if_neg hpair] at h
      cases h
  | case5 unit hhigh =>
      rw [decodeUnits?.eq_def] at h
      exact absurd ((if_neg hhigh).symm.trans h) nofun

/-- Units are read from the bytes that they are written as. -/
theorem units_bytesOf {codes : List Nat} (h : ∀ unit ∈ codes, unit < 0x10000) :
    units (codes.flatMap bytesOf) = codes := by
  induction codes with
  | nil => rfl
  | cons unit rest ih =>
      obtain ⟨hunit, hrest⟩ := List.forall_mem_cons.1 h
      rw [List.flatMap_cons, bytesOf, List.cons_append, List.singleton_append, units, ih hrest,
        UInt8.toNat_ofNat_of_lt' (Nat.mod_lt _ (by decide)),
        UInt8.toNat_ofNat_of_lt' (show unit / 0x100 < 0x100 by omega),
        show unit % 0x100 + 256 * (unit / 0x100) = unit by omega]

/-- An even number of bytes is what its units are written as. -/
theorem bytesOf_units {bytes : List UInt8} (h : bytes.length % 2 = 0) :
    (units bytes).flatMap bytesOf = bytes ∧ ∀ unit ∈ units bytes, unit < 0x10000 := by
  induction bytes using units.induct with
  | case1 low high rest ih =>
      rw [List.length_cons, List.length_cons] at h
      obtain ⟨hrest, hsmall⟩ := ih (by omega)
      have hlow := low.toNat_lt
      have hhigh := high.toNat_lt
      rw [units, List.flatMap_cons, hrest, List.forall_mem_cons]
      refine ⟨?_, by omega, hsmall⟩
      rw [bytesOf, show (low.toNat + 256 * high.toNat) % 0x100 = low.toNat by omega,
        show (low.toNat + 256 * high.toNat) / 0x100 = high.toNat by omega, UInt8.ofNat_toNat,
        UInt8.ofNat_toNat, List.cons_append, List.singleton_append]
  | case2 bytes hshort =>
      match bytes with
      | [] => exact ⟨rfl, nofun⟩
      | [_] => cases h
      | low :: high :: rest => exact absurd rfl (hshort low high rest)

theorem length_encode (text : List Char) : (encode text).length % 2 = 0 := by
  rw [encode]
  induction text.flatMap unitsOf with
  | nil => rfl
  | cons unit rest ih =>
      rw [List.flatMap_cons, List.length_append, bytesOf]
      simp only [List.length_cons, List.length_nil]
      omega

/-- The bytes of a text are the only ones that are read as the text. -/
theorem decodeUnits?_units_eq_some_iff {bytes : List UInt8} {text : List Char}
    (h : bytes.length % 2 = 0) : decodeUnits? (units bytes) = some text ↔ bytes = encode text := by
  obtain ⟨hbytes, hsmall⟩ := bytesOf_units h
  constructor
  · intro hread
    rw [← hbytes, eq_of_decodeUnits? hsmall hread, encode]
  · rintro rfl
    have hunits : ∀ unit ∈ text.flatMap unitsOf, unit < 0x10000 := by
      intro unit hmem
      obtain ⟨c, -, hc⟩ := List.mem_flatMap.1 hmem
      exact lt_of_mem_unitsOf hc
    rw [encode, units_bytesOf hunits, decodeUnits?_flatMap]

end ConfigNotation.Utf16
