import Mathlib.Data.List.Basic
import ConfigNotation.Text.Utf8

/-!
Decoding UTF-8 undoes encoding it, and nothing else is decoded. The machine takes exactly the
forms of characters, one after the other, and it stops at the first character that has not been
written in full: the bytes before it are the longest part that can be read.
-/

namespace ConfigNotation.Utf8

theorem encode_cons (c : Char) (text : List Char) :
    encode (c :: text) = encodeChar c ++ encode text := List.flatMap_cons

theorem encode_append (first second : List Char) :
    encode (first ++ second) = encode first ++ encode second := List.flatMap_append

/-- Bytes behind the first one of a character. The first of them is in a range
of its own. -/
def AreTails (low high : Nat) : List UInt8 → Prop
  | [] => True
  | byte :: rest => (low ≤ byte.toNat ∧ byte.toNat ≤ high) ∧ AreTails 0x80 0xBF rest

/-- The code point that tails complete: six bits of each behind what was read. -/
def completed (value : Nat) (tails : List UInt8) : Nat :=
  tails.foldl (fun value byte => value * 64 + byte.toNat % 64) value

section

variable {offset size owed low high value : Nat}

theorem step_inside {byte : UInt8} (h : low ≤ byte.toNat ∧ byte.toNat ≤ high) :
    step byte.toNat (.inside owed low high value) =
      if owed ≤ 1 then .complete (Char.ofNat (value * 64 + byte.toNat % 64))
      else .more (.inside (owed - 1) 0x80 0xBF (value * 64 + byte.toNat % 64)) := by
  rw [step, if_neg (by omega)]

/-- All bytes that are owed complete a character. -/
theorem decodeFrom_tails {tails : List UInt8} (htails : AreTails low high tails)
    (hlength : tails.length = owed + 1) (rest : List UInt8) :
    decodeFrom offset size (.inside (owed + 1) low high value) (tails ++ rest) =
      (decodeFrom (offset + size + owed + 1) 0 .start rest).map
        (Char.ofNat (completed value tails) :: ·) := by
  induction owed generalizing size low high value tails with
  | zero =>
      obtain ⟨byte, rfl⟩ := List.length_eq_one_iff.1 hlength
      rw [List.singleton_append, decodeFrom, step_inside htails.1]
      rfl
  | succ owed ih =>
      obtain ⟨byte, tails, rfl⟩ := List.exists_cons_of_length_eq_add_one hlength
      rw [List.cons_append, decodeFrom, step_inside htails.1, if_neg (by omega)]
      refine (ih htails.2 (by simpa using hlength)).trans ?_
      rw [show offset + (size + 1) + owed + 1 = offset + size + (owed + 1) + 1 by omega]
      rfl

/-- Without all bytes that are owed nothing is read any further. -/
theorem tails_or_stopped (offset size owed low high value : Nat) (bytes : List UInt8) :
    (∃ tails rest, bytes = tails ++ rest ∧ tails.length = owed + 1 ∧ AreTails low high tails) ∨
      decodeFrom offset size (.inside (owed + 1) low high value) bytes = .error offset := by
  induction owed generalizing size low high value bytes with
  | zero =>
      cases bytes with
      | nil => exact .inr rfl
      | cons byte rest =>
          by_cases hrange : low ≤ byte.toNat ∧ byte.toNat ≤ high
          · exact .inl ⟨[byte], rest, rfl, rfl, hrange, trivial⟩
          · rw [decodeFrom, step, if_pos (by omega)]
            exact .inr rfl
  | succ owed ih =>
      cases bytes with
      | nil => exact .inr rfl
      | cons byte rest =>
          by_cases hrange : low ≤ byte.toNat ∧ byte.toNat ≤ high
          · rw [decodeFrom, step_inside hrange, if_neg (by omega)]
            refine (ih (size + 1) 0x80 0xBF _ rest).imp_left ?_
            rintro ⟨tails, rest, rfl, hlength, htails⟩
            exact ⟨byte :: tails, rest, rfl, congrArg (· + 1) hlength, hrange, htails⟩
          · rw [decodeFrom, step, if_pos (by omega)]
            exact .inr rfl

end

/-- A first byte with the tails that it asks for. -/
structure IsForm (lead : UInt8) (tails : List UInt8) (low high value : Nat) : Prop where
  first_eq : first lead.toNat = .more (.inside tails.length low high value)
  tails_ne_nil : tails ≠ []
  areTails : AreTails low high tails

theorem toNat_ofNat_of_lt {n : Nat} (h : n < 0xD800 ∨ 0xDFFF < n ∧ n < 0x110000) :
    (Char.ofNat n).toNat = n := by
  rw [Char.ofNat, dif_pos h]
  rfl

/-- What a first byte asks for, by the ranges of first bytes. The next byte is
in the range of all tails, but at the ends of the ranges of three and of four
bytes and before the surrogates. -/
theorem first_cases {motive : Step → Prop} {lead : Nat}
    (single : lead < 0x80 → motive (.complete (.ofNat lead)))
    (two : 0xC2 ≤ lead → lead < 0xE0 → motive (.more (.inside 1 0x80 0xBF (lead - 0xC0))))
    (three : 0xE0 ≤ lead → lead < 0xF0 → motive (.more (.inside 2
      (if lead = 0xE0 then 0xA0 else 0x80) (if lead = 0xED then 0x9F else 0xBF) (lead - 0xE0))))
    (four : 0xF0 ≤ lead → lead ≤ 0xF4 → motive (.more (.inside 3
      (if lead = 0xF0 then 0x90 else 0x80) (if lead = 0xF4 then 0x8F else 0xBF) (lead - 0xF0))))
    (refused : lead < 0xC2 ∧ 0x80 ≤ lead ∨ 0xF4 < lead → motive .refused) :
    motive (first lead) := by
  unfold first
  refine iteInduction single fun hsingle => ?_
  refine iteInduction (fun hlead => refused (.inl ⟨hlead, Nat.not_lt.1 hsingle⟩)) fun hlow => ?_
  refine iteInduction (fun hlead => two (Nat.not_lt.1 hlow) hlead) fun htwo => ?_
  refine iteInduction (fun hlead => ?_) fun hshort => ?_
  · subst hlead
    exact three (by decide) (by decide)
  refine iteInduction (fun hlead => ?_) fun hsurrogate => ?_
  · subst hlead
    exact three (by decide) (by decide)
  refine iteInduction (fun hlead => ?_) fun hthree => ?_
  · have hread := three (Nat.not_lt.1 htwo) hlead
    rwa [if_neg hshort, if_neg hsurrogate] at hread
  refine iteInduction (fun hlead => ?_) fun hshort => ?_
  · subst hlead
    exact four (by decide) (by decide)
  refine iteInduction (fun hlead => ?_) fun hfour => ?_
  · have hread := four (Nat.not_lt.1 hthree) (Nat.le_of_lt hlead)
    rwa [if_neg hshort, if_neg (Nat.ne_of_lt hlead)] at hread
  refine iteInduction (fun hlead => ?_) fun hlast => refused (.inr (by omega))
  subst hlead
  exact four (by decide) (by decide)

/-- The first bytes of forms, by the number of tails. The ranges of the first
tails leave out what has a shorter form, the surrogates, and what is behind the
last code point. -/
theorem first_eq_more_iff {lead owed low high value : Nat} :
    first lead = .more (.inside owed low high value) ↔
      owed = 1 ∧ lead = 0xC0 + value ∧ 2 ≤ value ∧ value < 0x20 ∧ low = 0x80 ∧ high = 0xBF ∨
      owed = 2 ∧ lead = 0xE0 + value ∧ value < 0x10 ∧ low = (if value = 0 then 0xA0 else 0x80) ∧
        high = (if value = 0xD then 0x9F else 0xBF) ∨
      owed = 3 ∧ lead = 0xF0 + value ∧ value ≤ 4 ∧ low = (if value = 0 then 0x90 else 0x80) ∧
        high = (if value = 4 then 0x8F else 0xBF) := by
  refine first_cases (motive := fun step => step = .more (.inside owed low high value) ↔ _)
    (fun _ => ?_) (fun _ _ => ?_) (fun _ _ => ?_) (fun _ _ => ?_) fun _ => ?_
  all_goals
    simp only [Step.more.injEq, State.inside.injEq, reduceCtorEq, false_iff]
    split_ifs <;> omega

theorem first_eq_complete {lead : Nat} {c : Char} (h : first lead = .complete c) :
    lead < 0x80 ∧ c = Char.ofNat lead := by
  refine first_cases (motive := fun step => step = .complete c → _) (fun hsingle hstep => ?_)
    nofun nofun nofun nofun h
  exact ⟨hsingle, (Step.complete.inj hstep).symm⟩

theorem first_eq_more {lead : Nat} {state : State} (h : first lead = .more state) :
    ∃ owed low high value, state = .inside (owed + 1) low high value := by
  refine first_cases (motive := fun step => step = .more state → _) nofun (fun _ _ hstep => ?_)
    (fun _ _ hstep => ?_) (fun _ _ hstep => ?_) nofun h
  all_goals exact ⟨_, _, _, _, (Step.more.inj hstep).symm⟩

/-- The bytes of a character by its code point, in the four lengths. -/
theorem encodeChar_eq (c : Char) : encodeChar c =
    if c.toNat < 0x80 then [.ofNat c.toNat]
    else if c.toNat < 0x800 then [.ofNat (0xC0 + c.toNat / 0x40), .ofNat (0x80 + c.toNat % 0x40)]
    else if c.toNat < 0x10000 then
      [.ofNat (0xE0 + c.toNat / 0x1000), .ofNat (0x80 + c.toNat / 0x40 % 0x40),
        .ofNat (0x80 + c.toNat % 0x40)]
    else
      [.ofNat (0xF0 + c.toNat / 0x40000), .ofNat (0x80 + c.toNat / 0x1000 % 0x40),
        .ofNat (0x80 + c.toNat / 0x40 % 0x40), .ofNat (0x80 + c.toNat % 0x40)] := by
  simp only [encodeChar, Nat.div_one]

theorem ofNat_eq_iff {n : Nat} {byte : UInt8} (h : n < 0x100) :
    UInt8.ofNat n = byte ↔ n = byte.toNat := by
  rw [← UInt8.toNat_inj, UInt8.toNat_ofNat_of_lt' h]

/-- A form is the one of the character that it completes. -/
theorem IsForm.encodeChar_eq {lead : UInt8} {tails : List UInt8} {low high value : Nat}
    (h : IsForm lead tails low high value) :
    encodeChar (Char.ofNat (completed value tails)) = lead :: tails := by
  obtain ⟨hfirst, -, htails⟩ := h
  rw [Utf8.encodeChar_eq]
  obtain ⟨hlength, hlead, hmin, hmax, rfl, rfl⟩ | ⟨hlength, hlead, hmax, rfl, rfl⟩ |
    ⟨hlength, hlead, hmax, rfl, rfl⟩ := first_eq_more_iff.1 hfirst
  · obtain ⟨second, rfl⟩ := List.length_eq_one_iff.1 hlength
    obtain ⟨code, hcode⟩ : ∃ code, code = value * 64 + second.toNat % 64 := ⟨_, rfl⟩
    simp only [AreTails, completed, List.foldl_cons, List.foldl_nil, ← hcode] at htails ⊢
    rw [toNat_ofNat_of_lt (by omega), if_neg (by omega), if_pos (by omega)]
    simp (disch := omega) only [List.cons.injEq, ofNat_eq_iff, and_true]
    omega
  · obtain ⟨second, third, rfl⟩ := List.length_eq_two.1 hlength
    obtain ⟨code, hcode⟩ : ∃ code, code =
        (value * 64 + second.toNat % 64) * 64 + third.toNat % 64 := ⟨_, rfl⟩
    simp only [AreTails, completed, List.foldl_cons, List.foldl_nil, ← hcode] at htails ⊢
    have hsecond : 0x80 ≤ second.toNat ∧ second.toNat ≤ 0xBF := by split_ifs at htails <;> omega
    have hrange : 0x800 ≤ code ∧ (code < 0xD800 ∨ 0xDFFF < code) := by
      split_ifs at htails <;> omega
    rw [toNat_ofNat_of_lt (by omega), if_neg (by omega), if_neg (by omega), if_pos (by omega)]
    simp (disch := omega) only [List.cons.injEq, ofNat_eq_iff, and_true]
    omega
  · obtain ⟨second, third, fourth, rfl⟩ := List.length_eq_three.1 hlength
    obtain ⟨code, hcode⟩ : ∃ code, code =
        ((value * 64 + second.toNat % 64) * 64 + third.toNat % 64) * 64 + fourth.toNat % 64 :=
      ⟨_, rfl⟩
    simp only [AreTails, completed, List.foldl_cons, List.foldl_nil, ← hcode] at htails ⊢
    have hsecond : 0x80 ≤ second.toNat ∧ second.toNat ≤ 0xBF := by split_ifs at htails <;> omega
    have hrange : 0x10000 ≤ code ∧ code < 0x110000 := by split_ifs at htails <;> omega
    rw [toNat_ofNat_of_lt (by omega), if_neg (by omega), if_neg (by omega), if_neg (by omega)]
    simp (disch := omega) only [List.cons.injEq, ofNat_eq_iff, and_true]
    omega

/-- Every character is a single byte or has a form. -/
theorem encodeChar_cases (c : Char) :
    (∃ lead : UInt8, encodeChar c = [lead] ∧ first lead.toNat = .complete c) ∨
    ∃ lead tails low high value, encodeChar c = lead :: tails ∧
      IsForm lead tails low high value ∧ completed value tails = c.toNat := by
  have hvalid : c.toNat < 0xD800 ∨ 0xDFFF < c.toNat ∧ c.toNat < 0x110000 := c.valid
  have hbyte {n : Nat} (h : n < 0x100) : (UInt8.ofNat n).toNat = n := UInt8.toNat_ofNat_of_lt' h
  rw [encodeChar_eq]
  generalize hcode : c.toNat = code at hvalid
  split_ifs with hone htwo hthree
  · refine .inl ⟨_, rfl, ?_⟩
    rw [hbyte (by omega), first, if_pos hone, ← hcode, Char.ofNat_toNat]
  · refine .inr ⟨_, _, _, _, code / 0x40, rfl,
      ⟨first_eq_more_iff.2 (.inl ⟨rfl, hbyte (by omega), by omega, by omega, rfl, rfl⟩),
        List.cons_ne_nil _ _, ?_⟩, ?_⟩
    · simp (disch := omega) only [AreTails, hbyte, and_true]
      omega
    · simp (disch := omega) only [completed, List.foldl_cons, List.foldl_nil, hbyte]
      omega
  · refine .inr ⟨_, _, _, _, code / 0x1000, rfl,
      ⟨first_eq_more_iff.2 (.inr (.inl ⟨rfl, hbyte (by omega), by omega, rfl, rfl⟩)),
        List.cons_ne_nil _ _, ?_⟩, ?_⟩
    · simp (disch := omega) only [AreTails, hbyte, and_true]
      split_ifs <;> omega
    · simp (disch := omega) only [completed, List.foldl_cons, List.foldl_nil, hbyte]
      omega
  · refine .inr ⟨_, _, _, _, code / 0x40000, rfl,
      ⟨first_eq_more_iff.2 (.inr (.inr ⟨rfl, hbyte (by omega), by omega, rfl, rfl⟩)),
        List.cons_ne_nil _ _, ?_⟩, ?_⟩
    · simp (disch := omega) only [AreTails, hbyte, and_true]
      split_ifs <;> omega
    · simp (disch := omega) only [completed, List.foldl_cons, List.foldl_nil, hbyte]
      omega

/-- The bytes of a character are those that strings keep for it. -/
theorem encodeChar_eq_utf8EncodeChar (c : Char) : encodeChar c = String.utf8EncodeChar c := by
  have hvalid : c.toNat < 0xD800 ∨ 0xDFFF < c.toNat ∧ c.toNat < 0x110000 := c.valid
  have hcode : c.val.toNat = c.toNat := rfl
  rw [encodeChar_eq, String.utf8EncodeChar]
  simp only [hcode]
  generalize c.toNat = code at hvalid
  split_ifs <;> try omega
  · rfl
  · rw [Nat.add_comm, Nat.add_comm 0x80, Nat.mod_eq_of_lt (by omega : code / 0x40 < 0x20)]
  · rw [Nat.add_comm, Nat.add_comm 0x80, Nat.add_comm 0x80,
      Nat.mod_eq_of_lt (by omega : code / 0x1000 < 0x10)]
  · rw [Nat.add_comm, Nat.add_comm 0x80, Nat.add_comm 0x80, Nat.add_comm 0x80,
      Nat.mod_eq_of_lt (by omega : code / 0x40000 < 8)]

/-- Encoding agrees with that of the library, so byte offsets here are those of
its strings. -/
theorem encode_toList (text : String) : encode text.toList = text.toUTF8.data.toList := by
  have hchars : encode text.toList = text.toList.flatMap String.utf8EncodeChar :=
    List.flatMap_congr fun c _ => encodeChar_eq_utf8EncodeChar c
  rw [hchars, String.toUTF8, ← String.utf8Encode_toList, List.utf8Encode,
    List.toList_data_toByteArray]

theorem length_encode_toList (text : String) : (encode text.toList).length = text.utf8ByteSize := by
  rw [encode_toList, Array.length_toList]
  rfl

theorem encodeChar_ne_nil (c : Char) : encodeChar c ≠ [] := by
  obtain ⟨lead, heq, -⟩ | ⟨lead, tails, low, high, value, heq, -⟩ := encodeChar_cases c <;>
    exact heq ▸ List.cons_ne_nil _ _

section

variable {offset : Nat}

/-- A form is read as the character that it completes. -/
theorem IsForm.decodeFrom {lead : UInt8} {tails : List UInt8} {low high value : Nat}
    (h : IsForm lead tails low high value) (rest : List UInt8) :
    decodeFrom offset 0 .start (lead :: tails ++ rest) =
      (Utf8.decodeFrom (offset + (lead :: tails).length) 0 .start rest).map
        (Char.ofNat (completed value tails) :: ·) := by
  obtain ⟨owed, howed⟩ := Nat.exists_eq_add_one_of_ne_zero
    (mt List.length_eq_zero_iff.1 h.tails_ne_nil)
  rw [List.cons_append, Utf8.decodeFrom, step, h.first_eq, howed]
  refine (decodeFrom_tails h.areTails howed rest).trans ?_
  rw [List.length_cons, howed, show offset + 1 + owed + 1 = offset + (owed + 1 + 1) by omega]

/-- A character is read from its bytes. -/
theorem decodeFrom_encodeChar (c : Char) (rest : List UInt8) :
    decodeFrom offset 0 .start (encodeChar c ++ rest) =
      (decodeFrom (offset + (encodeChar c).length) 0 .start rest).map (c :: ·) := by
  obtain ⟨lead, heq, hfirst⟩ | ⟨lead, tails, low, high, value, heq, hform, hcode⟩ :=
    encodeChar_cases c
  · rw [heq, List.singleton_append, decodeFrom, step, hfirst]
    rfl
  · rw [heq, hform.decodeFrom, hcode, Char.ofNat_toNat]

/-- Bytes begin with those of a character, or nothing is read of them. -/
theorem encodeChar_or_stopped (lead : UInt8) (bytes : List UInt8) :
    (∃ c rest, lead :: bytes = encodeChar c ++ rest) ∨
      ∀ offset, decodeFrom offset 0 .start (lead :: bytes) = .error offset := by
  cases hfirst : first lead.toNat with
  | refused =>
      refine .inr fun offset => ?_
      rw [decodeFrom, step, hfirst]
  | complete c =>
      obtain ⟨hsingle, rfl⟩ := first_eq_complete hfirst
      refine .inl ⟨Char.ofNat lead.toNat, bytes, ?_⟩
      rw [encodeChar_eq, toNat_ofNat_of_lt (by omega), if_pos hsingle, UInt8.ofNat_toNat,
        List.singleton_append]
  | more state =>
      obtain ⟨owed, low, high, value, rfl⟩ := first_eq_more hfirst
      by_cases htails : ∃ tails rest, bytes = tails ++ rest ∧ tails.length = owed + 1 ∧
          AreTails low high tails
      · obtain ⟨tails, rest, rfl, hlength, htails⟩ := htails
        have hform : IsForm lead tails low high value :=
          ⟨by rw [hfirst, hlength], List.ne_nil_of_length_eq_add_one hlength, htails⟩
        exact .inl ⟨_, rest, by rw [hform.encodeChar_eq, List.cons_append]⟩
      · refine .inr fun offset => ?_
        rw [decodeFrom, step, hfirst]
        exact (tails_or_stopped offset _ owed low high value bytes).resolve_left htails

/-- Text is read from its bytes. -/
theorem decodeFrom_encode (offset : Nat) (text : List Char) (rest : List UInt8) :
    decodeFrom offset 0 .start (encode text ++ rest) =
      (decodeFrom (offset + (encode text).length) 0 .start rest).map (text ++ ·) := by
  induction text generalizing offset with
  | nil => cases h : decodeFrom offset 0 .start rest <;> simp [encode, h, Except.map]
  | cons c text ih =>
      rw [encode_cons, List.append_assoc, decodeFrom_encodeChar, ih, List.length_append,
        Nat.add_assoc]
      cases decodeFrom (offset + ((encodeChar c).length + (encode text).length)) 0 .start rest <;> rfl

end

/-- Failures name a place behind what has been read. -/
theorem le_of_decodeFrom_error {offset size : Nat} {state : State} {bytes : List UInt8}
    {stopped : Nat} (h : decodeFrom offset size state bytes = .error stopped) :
    offset ≤ stopped := by
  induction bytes generalizing offset size state with
  | nil =>
      rw [decodeFrom] at h
      split at h
      · cases h
      · exact Nat.le_of_eq (Except.error.inj h)
  | cons byte rest ih =>
      rw [decodeFrom] at h
      split at h
      · exact Nat.le_of_eq (Except.error.inj h)
      · exact ih h
      · cases hrest : decodeFrom (offset + size + 1) 0 .start rest with
        | ok text =>
            rw [hrest] at h
            cases h
        | error later =>
            rw [hrest] at h
            obtain rfl := Except.error.inj h
            have := ih hrest
            omega

/-- Bytes are the bytes of a text, and then others that nothing is read of. -/
theorem exists_longest_text (bytes : List UInt8) : ∃ text rest, bytes = encode text ++ rest ∧
    (rest = [] ∨ ∀ offset, decodeFrom offset 0 .start rest = .error offset) := by
  induction hlength : bytes.length using Nat.strongRecOn generalizing bytes with
  | _ length ih =>
    cases bytes with
    | nil => exact ⟨[], [], rfl, .inl rfl⟩
    | cons lead bytes =>
        obtain ⟨c, behind, hchar⟩ | hstopped := encodeChar_or_stopped lead bytes
        · have hshorter : behind.length < length := by
            rw [← hlength, hchar, List.length_append]
            have := List.length_pos_iff.2 (encodeChar_ne_nil c)
            omega
          obtain ⟨text, rest, rfl, hrest⟩ := ih _ hshorter behind rfl
          exact ⟨c :: text, rest, by rw [hchar, encode_cons, List.append_assoc], hrest⟩
        · exact ⟨[], lead :: bytes, rfl, .inr hstopped⟩

/-- A text is decoded from its own bytes, whatever characters it has. -/
theorem decode_encode (text : List Char) : decode (encode text) = .ok text := by
  have hread := decodeFrom_encode 0 text []
  rw [List.append_nil] at hread
  rw [decode, hread]
  exact congrArg Except.ok (List.append_nil text)

/-- Nothing but the bytes of a text is decoded. -/
theorem decode_eq_ok_iff {bytes : List UInt8} {text : List Char} :
    decode bytes = .ok text ↔ bytes = encode text := by
  refine ⟨fun h => ?_, fun h => h ▸ decode_encode text⟩
  obtain ⟨read, rest, rfl, rfl | hstopped⟩ := exists_longest_text bytes
  · rw [List.append_nil, decode_encode, Except.ok.injEq] at h
    rw [List.append_nil, h]
  · rw [decode, decodeFrom_encode, hstopped] at h
    cases h

/-- The failure tells the length of the longest text that the bytes begin
with. -/
theorem decode_eq_error {bytes : List UInt8} {offset : Nat} (h : decode bytes = .error offset) :
    (∃ text, encode text <+: bytes ∧ (encode text).length = offset) ∧
      ∀ text, encode text <+: bytes → (encode text).length ≤ offset := by
  constructor
  · obtain ⟨text, rest, rfl, rfl | hstopped⟩ := exists_longest_text bytes
    · rw [List.append_nil, decode_encode] at h
      cases h
    · rw [decode, decodeFrom_encode, hstopped, Nat.zero_add] at h
      exact ⟨text, List.prefix_append _ _, Except.error.inj h⟩
  · rintro text ⟨rest, rfl⟩
    rw [decode, decodeFrom_encode, Nat.zero_add] at h
    cases hrest : decodeFrom (encode text).length 0 .start rest with
    | ok others =>
        rw [hrest] at h
        cases h
    | error stopped =>
        rw [hrest] at h
        exact Except.error.inj h ▸ le_of_decodeFrom_error hrest

end ConfigNotation.Utf8
