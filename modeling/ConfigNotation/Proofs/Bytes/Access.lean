import ConfigNotation.Proofs.Text.Utf8
import ConfigNotation.Text.Slice

/-!
Texts as bytes, with the steps that take offsets into them. A step that may panic gives
nothing where it would: behind the end of the bytes, or between two offsets that are not in
order. What stands at an offset is a text if the offset is a boundary between characters. The
bytes there tell characters of ASCII from each other and from all others, which have no byte
of ASCII.
-/

namespace ConfigNotation.Bytes

open Text Utf8

/-- What comes of a step that may panic. -/
abbrev Checked := Option

def charOf (byte : UInt8) : Char := Char.ofNat byte.toNat

def at? (bytes : List UInt8) (offset : Nat) : Option Char := bytes[offset]?.map charOf

def from? (bytes : List UInt8) (start : Nat) : Option (List Char) :=
  if start ≤ bytes.length then some ((bytes.drop start).map charOf) else none

def between? (bytes : List UInt8) (start stop : Nat) : Option (List Char) :=
  if start ≤ stop ∧ stop ≤ bytes.length then
    some (((bytes.drop start).take (stop - start)).map charOf)
  else none

def countWhile (bytes : List UInt8) (start : Nat) (condition : Char → Bool) : Nat :=
  (((bytes.drop start).map charOf).takeWhile condition).length

def asBytes (text : List Char) : List Char := (encode text).map charOf

def IsAscii (c : Char) : Prop := c.toNat < 0x80

instance (c : Char) : Decidable (IsAscii c) := inferInstanceAs (Decidable (_ < _))

/-- A condition that does not tell apart what is not ASCII. -/
def IsAsciiTest (condition : Char → Bool) : Prop :=
  ∀ c d, ¬IsAscii c → ¬IsAscii d → condition c = condition d

/-- A condition that holds for characters of ASCII only. -/
theorem isAsciiTest_of {condition : Char → Bool} (h : ∀ c, condition c = true → IsAscii c) :
    IsAsciiTest condition := by
  have hfalse (c : Char) (hc : ¬IsAscii c) : condition c = false := by
    cases hcondition : condition c with
    | true => exact absurd (h c hcondition) hc
    | false => rfl
  intro c d hc hd
  rw [hfalse c hc, hfalse d hd]

/-- Conditions that do not tell wide characters apart are closed under negation.
With the two lemmas below, every class of characters that the scanners ask about
is of this sort. -/
theorem IsAsciiTest.not {condition : Char → Bool} (h : IsAsciiTest condition) :
    IsAsciiTest fun c => !condition c :=
  fun c d hc hd => congrArg _ (h c d hc hd)

theorem IsAsciiTest.and {first second : Char → Bool} (hfirst : IsAsciiTest first)
    (hsecond : IsAsciiTest second) : IsAsciiTest fun c => first c && second c := by
  intro c d hc hd
  simp only [hfirst c d hc hd, hsecond c d hc hd]

theorem IsAsciiTest.or {first second : Char → Bool} (hfirst : IsAsciiTest first)
    (hsecond : IsAsciiTest second) : IsAsciiTest fun c => first c || second c := by
  intro c d hc hd
  simp only [hfirst c d hc hd, hsecond c d hc hd]

theorem isAsciiTest_beq {c : Char} (h : IsAscii c) : IsAsciiTest (· == c) :=
  isAsciiTest_of fun _ heq => eq_of_beq heq ▸ h

/-- A byte that tells a character as well as it can be told. -/
inductive Tells (c : Char) : Char → Prop where
  | same (hascii : IsAscii c) : Tells c c
  | wide {d : Char} (hc : ¬IsAscii c) (hd : ¬IsAscii d) : Tells c d

/-- Where a byte tells a character, a condition of that sort gives the same
answer for both. A wide character and its first byte fall on the same side. -/
theorem Tells.condition_eq {c d : Char} (h : Tells c d) {condition : Char → Bool}
    (htest : IsAsciiTest condition) : condition d = condition c := by
  cases h with
  | same => rfl
  | wide hc hd => exact htest d c hd hc

theorem Tells.eq_iff {c d mark : Char} (h : Tells c d) (hmark : IsAscii mark) :
    d = mark ↔ c = mark := by
  cases h with
  | same => rfl
  | wide hc hd =>
      exact iff_of_false (fun heq => hd (heq ▸ hmark)) fun heq => hc (heq ▸ hmark)

theorem toNat_charOf (byte : UInt8) : (charOf byte).toNat = byte.toNat := by
  have hbyte := byte.toNat_lt
  exact toNat_ofNat_of_lt (.inl (by omega))

/-- The bytes of a character: itself, or bytes of which none is ASCII. -/
theorem bytes_of_char (c : Char) :
    IsAscii c ∧ (encodeChar c).map charOf = [c] ∨
      ¬IsAscii c ∧ ∀ d ∈ (encodeChar c).map charOf, ¬IsAscii d := by
  have hvalid : c.toNat < 0xD800 ∨ 0xDFFF < c.toNat ∧ c.toNat < 0x110000 := c.valid
  by_cases hascii : IsAscii c
  · refine .inl ⟨hascii, ?_⟩
    have hsmall : c.toNat < 0x80 := hascii
    rw [encodeChar_eq, if_pos hsmall, List.map_singleton, charOf,
      UInt8.toNat_ofNat_of_lt' (show c.toNat < 0x100 by omega), Char.ofNat_toNat]
  · refine .inr ⟨hascii, ?_⟩
    have hlarge : ¬c.toNat < 0x80 := hascii
    have hwide {n : Nat} (hn : 0x80 ≤ n ∧ n < 0x100) : ¬IsAscii (charOf (.ofNat n)) := by
      rw [IsAscii, toNat_charOf, UInt8.toNat_ofNat_of_lt' hn.2]
      omega
    rw [encodeChar_eq, if_neg hlarge]
    split
    · simp only [List.map_cons, List.map_nil, List.forall_mem_cons, List.not_mem_nil,
        false_implies, implies_true, and_true]
      exact ⟨hwide (by omega), hwide (by omega)⟩
    · split
      · simp only [List.map_cons, List.map_nil, List.forall_mem_cons, List.not_mem_nil,
          false_implies, implies_true, and_true]
        exact ⟨hwide (by omega), hwide (by omega), hwide (by omega)⟩
      · simp only [List.map_cons, List.map_nil, List.forall_mem_cons, List.not_mem_nil,
          false_implies, implies_true, and_true]
        exact ⟨hwide (by omega), hwide (by omega), hwide (by omega), hwide (by omega)⟩

theorem length_encodeChar (c : Char) : (encodeChar c).length = c.utf8Size := by
  rw [encodeChar_eq_utf8EncodeChar, String.length_utf8EncodeChar]

theorem utf8Size_of_isAscii {c : Char} (h : IsAscii c) : c.utf8Size = 1 := by
  rcases bytes_of_char c with ⟨-, hbytes⟩ | ⟨hwide, -⟩
  · rw [← length_encodeChar, ← List.length_map charOf, hbytes]
    rfl
  · exact absurd h hwide

/-- A first part of a text is what stands before the offset of its size. -/
theorem takeBytes?_eq_some_iff {offset : Nat} {text part : List Char} :
    takeBytes? offset text = some part ↔ ∃ rest, text = part ++ rest ∧ byteSize part = offset := by
  constructor
  · intro h
    fun_induction takeBytes? offset text generalizing part with
    | case1 text =>
        cases h
        exact ⟨text, rfl, rfl⟩
    | case2 => cases h
    | case3 n c rest hsize ih =>
        obtain ⟨inner, hinner, rfl⟩ := Option.map_eq_some_iff.1 h
        obtain ⟨others, rfl, hoffset⟩ := ih hinner
        refine ⟨others, rfl, ?_⟩
        rw [byteSize_cons, hoffset]
        omega
    | case4 => cases h
  · rintro ⟨rest, rfl, rfl⟩
    exact takeBytes?_append part rest

/-- The number of bytes of a text is the sum of the sizes of its characters, so
offsets over bytes can be computed without encoding anything. -/
theorem length_encode (text : List Char) : (encode text).length = byteSize text := by
  induction text with
  | nil => rfl
  | cons c rest ih => rw [encode_cons, List.length_append, length_encodeChar, ih, byteSize_cons]

theorem asBytes_cons (c : Char) (rest : List Char) :
    asBytes (c :: rest) = (encodeChar c).map charOf ++ asBytes rest := by
  rw [asBytes, encode_cons, List.map_append, asBytes]

theorem length_asBytes (text : List Char) : (asBytes text).length = byteSize text := by
  rw [asBytes, List.length_map, length_encode]

/-- Cutting a text at an offset leaves what stands behind its first bytes. -/
theorem byteSize_of_dropBytes? {text rest : List Char} {offset : Nat}
    (h : dropBytes? offset text = some rest) : byteSize text = offset + byteSize rest := by
  fun_induction dropBytes? offset text with
  | case1 text =>
      cases h
      rw [Nat.zero_add]
  | case2 => cases h
  | case3 n c behind hsize ih =>
      have hrest := ih h
      rw [byteSize_cons]
      omega
  | case4 => cases h

/-- A text stands at an offset of bytes, up to their end. -/
def StandsAt (bytes : List UInt8) (offset : Nat) (rest : List Char) : Prop :=
  ∃ front, bytes = front ++ encode rest ∧ offset = front.length

namespace StandsAt

variable {bytes : List UInt8} {offset : Nat} {c : Char} {first rest : List Char}

/-- An offset behind a whole number of characters is one at which the rest
stands. All offsets that the scanners use come from here. -/
theorem of_append (first rest : List Char) :
    StandsAt (encode (first ++ rest)) (byteSize first) rest :=
  ⟨encode first, encode_append first rest, (length_encode first).symm⟩

theorem le_length (h : StandsAt bytes offset rest) : offset ≤ bytes.length := by
  obtain ⟨front, rfl, rfl⟩ := h
  simp

theorem drop_eq (h : StandsAt bytes offset rest) : bytes.drop offset = encode rest := by
  obtain ⟨front, rfl, rfl⟩ := h
  exact List.drop_left

theorem length_eq (h : StandsAt bytes offset rest) : bytes.length = offset + byteSize rest := by
  obtain ⟨front, rfl, rfl⟩ := h
  rw [List.length_append, length_encode]

/-- Behind a first part of it the rest of a text stands. -/
theorem behind (h : StandsAt bytes offset (first ++ rest)) :
    StandsAt bytes (offset + byteSize first) rest := by
  obtain ⟨front, rfl, rfl⟩ := h
  refine ⟨front ++ encode first, ?_, ?_⟩
  · rw [encode_append, List.append_assoc]
  · rw [List.length_append, length_encode]

/-- Going over one character moves the offset by its size, whatever that is.
This is the step of every loop over the bytes of a text. -/
theorem tail (h : StandsAt bytes offset (c :: rest)) :
    StandsAt bytes (offset + c.utf8Size) rest := by
  have hfirst : StandsAt bytes offset ([c] ++ rest) := h
  exact hfirst.behind

theorem tail_of_isAscii (h : StandsAt bytes offset (c :: rest)) (hascii : IsAscii c) :
    StandsAt bytes (offset + 1) rest := by
  rw [← utf8Size_of_isAscii hascii]
  exact h.tail

/-- Going over any number of characters leads to an offset at which what is left
of the text stands. -/
theorem drop (h : StandsAt bytes offset rest) (count : Nat) :
    StandsAt bytes (offset + byteSize (rest.take count)) (rest.drop count) := by
  apply behind
  rwa [List.take_append_drop]

/-- Behind a part that the text starts with stands what is left of it, which is
how a match is cut off. -/
theorem behind_first (h : StandsAt bytes offset rest) (hfirst : first <+: rest) :
    StandsAt bytes (offset + byteSize first) (rest.drop first.length) := by
  obtain ⟨others, rfl⟩ := hfirst
  rw [List.drop_left]
  exact h.behind

/-- The slice from a boundary never panics and holds the bytes of the rest. -/
theorem from?_eq (h : StandsAt bytes offset rest) :
    from? bytes offset = some (asBytes rest) := by
  rw [from?, if_pos h.le_length, h.drop_eq, asBytes]

theorem at?_eq (h : StandsAt bytes offset rest) :
    at? bytes offset = (asBytes rest).head? := by
  rw [at?, asBytes, List.head?_map, List.head?_eq_getElem?, ← h.drop_eq, List.getElem?_drop,
    Nat.add_zero]

theorem at?_nil (h : StandsAt bytes offset []) : at? bytes offset = none := h.at?_eq

/-- The first byte of a text tells its first character. -/
theorem at?_cons (h : StandsAt bytes offset (c :: rest)) :
    ∃ d, at? bytes offset = some d ∧ Tells c d := by
  rw [h.at?_eq, asBytes_cons]
  rcases bytes_of_char c with ⟨hascii, hbytes⟩ | ⟨hwide, hbytes⟩
  · rw [hbytes]
    exact ⟨c, rfl, .same hascii⟩
  · obtain ⟨lead, tails, hlead⟩ := List.exists_cons_of_ne_nil (encodeChar_ne_nil c)
    rw [hlead] at hbytes ⊢
    exact ⟨charOf lead, rfl, .wide hwide (hbytes _ List.mem_cons_self)⟩

/-- A mark of ASCII stands at an offset exactly if it is the next character,
since no byte inside of a wide character is a byte of ASCII. -/
theorem at?_eq_some_iff (h : StandsAt bytes offset rest) {mark : Char} (hmark : IsAscii mark) :
    at? bytes offset = some mark ↔ rest.head? = some mark := by
  cases rest with
  | nil => rw [h.at?_nil]; rfl
  | cons c rest =>
      obtain ⟨d, hd, htells⟩ := h.at?_cons
      rw [hd, List.head?_cons, Option.some.injEq, Option.some.injEq]
      exact htells.eq_iff hmark

/-- A condition on the next byte is one on the next character, if it does not
tell wide characters apart. -/
theorem at?_all (h : StandsAt bytes offset rest) {condition : Char → Bool}
    (htest : IsAsciiTest condition) :
    (at? bytes offset).all condition = rest.head?.all condition := by
  cases rest with
  | nil => rw [h.at?_nil]; rfl
  | cons c rest =>
      obtain ⟨d, hd, htells⟩ := h.at?_cons
      rw [hd]
      exact htells.condition_eq htest

end StandsAt

/-- The byte before an offset tells the character before it. -/
theorem at?_last (front rest : List Char) (c : Char) :
    ∃ d, at? (encode (front ++ c :: rest)) (byteSize front + c.utf8Size - 1) = some d ∧
      Tells c d := by
  obtain ⟨leads, last, hbytes⟩ : ∃ leads last, encodeChar c = leads ++ [last] :=
    ⟨_, _, (List.dropLast_append_getLast (encodeChar_ne_nil c)).symm⟩
  have hsize : leads.length + 1 = c.utf8Size := by
    rw [← length_encodeChar, hbytes, List.length_append, List.length_singleton]
  have hplace : byteSize front + c.utf8Size - 1 = (encode front ++ leads).length := by
    rw [List.length_append, length_encode]
    omega
  have hall : encode (front ++ c :: rest) = (encode front ++ leads) ++ last :: encode rest := by
    rw [encode_append, encode_cons, hbytes]
    simp
  have hat : at? (encode (front ++ c :: rest)) (byteSize front + c.utf8Size - 1) =
      some (charOf last) := by
    simp only [at?, hall, hplace, List.getElem?_append_right (Nat.le_refl _), Nat.sub_self,
      List.getElem?_cons_zero, Option.map_some]
  refine ⟨charOf last, hat, ?_⟩
  rcases bytes_of_char c with ⟨hascii, hone⟩ | ⟨hwide, hothers⟩
  · rw [hbytes, List.map_append, List.map_singleton] at hone
    have hlast : charOf last = c := by
      have hnone : leads = [] := List.length_eq_zero_iff.1
        (by rw [utf8Size_of_isAscii hascii] at hsize; omega)
      rw [hnone] at hone
      exact (List.cons.inj hone).1
    rw [hlast]
    exact .same hascii
  · exact .wide hwide (hothers _ (by simp [hbytes]))

/-- All bytes of a character meet a condition if the character does. -/
theorem condition_bytes {condition : Char → Bool} (htest : IsAsciiTest condition) (c : Char) :
    ∀ d ∈ (encodeChar c).map charOf, condition d = condition c := by
  rcases bytes_of_char c with ⟨-, hbytes⟩ | ⟨hwide, hbytes⟩
  · rw [hbytes]
    simp
  · exact fun d hd => htest d c (hbytes d hd) hwide

theorem byteSize_of_isAscii {text : List Char} (h : ∀ c ∈ text, IsAscii c) :
    byteSize text = text.length := by
  induction text with
  | nil => rfl
  | cons c rest ih =>
      obtain ⟨hfirst, hrest⟩ := List.forall_mem_cons.1 h
      rw [byteSize_cons, utf8Size_of_isAscii hfirst, ih hrest, List.length_cons, Nat.add_comm]

/-- The bytes that meet a condition are those of the characters that meet it. -/
theorem takeWhile_asBytes {condition : Char → Bool} (htest : IsAsciiTest condition)
    (text : List Char) :
    (asBytes text).takeWhile condition = asBytes (text.takeWhile condition) := by
  induction text with
  | nil => rfl
  | cons c rest ih =>
      have hbytes := condition_bytes htest c
      rw [asBytes_cons]
      cases hc : condition c with
      | true =>
          rw [List.takeWhile_append_of_pos fun d hd => (hbytes d hd).trans hc, ih,
            List.takeWhile_cons_of_pos hc, asBytes_cons]
      | false =>
          obtain ⟨lead, tails, hlead⟩ := List.exists_cons_of_ne_nil (encodeChar_ne_nil c)
          rw [hlead] at hbytes ⊢
          have hstop : ¬condition (charOf lead) = true := by
            rw [hbytes _ List.mem_cons_self, hc]
            exact Bool.false_ne_true
          have hnone : ¬condition c = true := by
            rw [hc]
            exact Bool.false_ne_true
          rw [List.map_cons, List.cons_append, List.takeWhile_cons_of_neg hstop,
            List.takeWhile_cons_of_neg hnone]
          rfl

/-- Looking for a character among bytes finds what looking among characters
finds. -/
theorem any_asBytes {condition : Char → Bool} (htest : IsAsciiTest condition) (text : List Char) :
    (asBytes text).any condition = text.any condition := by
  induction text with
  | nil => rfl
  | cons c rest ih =>
      have hbytes := condition_bytes htest c
      obtain ⟨lead, tails, hlead⟩ := List.exists_cons_of_ne_nil (encodeChar_ne_nil c)
      rw [asBytes_cons, List.any_append, ih, List.any_cons]
      congr 1
      rw [Bool.eq_iff_iff, List.any_eq_true]
      constructor
      · rintro ⟨d, hd, hcondition⟩
        rwa [hbytes d hd] at hcondition
      · intro hcondition
        refine ⟨charOf lead, by simp [hlead], ?_⟩
        rwa [hbytes _ (by simp [hlead])]

/-- The first byte that meets a condition is that of the first character that
does. -/
theorem findIdx?_asBytes {condition : Char → Bool} (htest : IsAsciiTest condition)
    (text : List Char) :
    (asBytes text).findIdx? condition =
      if text.any condition then some (byteSize (text.takeWhile fun c => !condition c))
      else none := by
  induction text with
  | nil => rfl
  | cons c rest ih =>
      have hbytes := condition_bytes htest c
      rw [asBytes_cons]
      cases hc : condition c with
      | true =>
          obtain ⟨lead, tails, hlead⟩ := List.exists_cons_of_ne_nil (encodeChar_ne_nil c)
          rw [hlead] at hbytes ⊢
          have hfirst : condition (charOf lead) = true := by
            rw [hbytes _ List.mem_cons_self, hc]
          simp [List.findIdx?_cons, hfirst, hc]
      | false =>
          have hnone : ((encodeChar c).map charOf).findIdx? condition = none :=
            List.findIdx?_eq_none_iff.2 fun d hd => (hbytes d hd).trans hc
          have hlength : ((encodeChar c).map charOf).length = c.utf8Size := by
            rw [List.length_map, length_encodeChar]
          rw [List.findIdx?_append, hnone, Option.none_or, ih, hlength, List.any_cons, hc,
            Bool.false_or, List.takeWhile_cons_of_pos (by rw [hc]; rfl), byteSize_cons]
          split
          · rw [Option.map_some, Nat.add_comm]
          · rfl

/-- A word of ASCII is found in bytes as it is found in characters. -/
theorem isPrefixOf_asBytes {word : List Char} (hword : ∀ c ∈ word, IsAscii c) (text : List Char) :
    word.isPrefixOf (asBytes text) = word.isPrefixOf text := by
  induction word generalizing text with
  | nil => simp
  | cons mark word ih =>
      obtain ⟨hmark, hrest⟩ := List.forall_mem_cons.1 hword
      cases text with
      | nil => rfl
      | cons c text =>
          rw [asBytes_cons]
          rcases bytes_of_char c with ⟨hascii, hbytes⟩ | ⟨hwide, hbytes⟩
          · rw [hbytes, List.singleton_append, List.isPrefixOf_cons_cons, List.isPrefixOf_cons_cons,
              ih hrest]
          · obtain ⟨lead, tails, hlead⟩ := List.exists_cons_of_ne_nil (encodeChar_ne_nil c)
            rw [hlead] at hbytes ⊢
            have hne : (mark == charOf lead) = false := by
              rw [beq_eq_false_iff_ne]
              rintro rfl
              exact hbytes _ List.mem_cons_self hmark
            have hother : (mark == c) = false := by
              rw [beq_eq_false_iff_ne]
              rintro rfl
              exact hwide hmark
            rw [List.map_cons, List.cons_append, List.isPrefixOf_cons_cons,
              List.isPrefixOf_cons_cons, hne, hother]
            rfl

theorem toLower_of_wide {c : Char} (h : ¬IsAscii c) : c.toLower = c := by
  unfold Char.toLower
  split
  · next hupper =>
    have hlast : c.toNat ≤ 'Z'.toNat := hupper.2
    exact absurd (Nat.lt_of_le_of_lt hlast (by decide)) h
  · rfl

/-- A word is found in either case in bytes as it is in characters. -/
theorem toLower_asBytes {word : List Char} (hword : ∀ c ∈ word, IsAscii c) (text : List Char) :
    ((asBytes text).take word.length).map Char.toLower = word ↔
      (text.take word.length).map Char.toLower = word := by
  induction word generalizing text with
  | nil => simp
  | cons mark word ih =>
      obtain ⟨hmark, hrest⟩ := List.forall_mem_cons.1 hword
      cases text with
      | nil => rfl
      | cons c text =>
          rw [asBytes_cons]
          rcases bytes_of_char c with ⟨hascii, hbytes⟩ | ⟨hwide, hbytes⟩
          · simp only [hbytes, List.singleton_append, List.length_cons, List.take_succ_cons,
              List.map_cons, List.cons.injEq, ih hrest]
          · obtain ⟨lead, tails, hlead⟩ := List.exists_cons_of_ne_nil (encodeChar_ne_nil c)
            rw [hlead] at hbytes ⊢
            have hfirst := hbytes _ List.mem_cons_self
            simp only [List.map_cons, List.cons_append, List.length_cons, List.take_succ_cons,
              List.cons.injEq, toLower_of_wide hwide, toLower_of_wide hfirst]
            refine iff_of_false (fun heq => hfirst ?_) fun heq => hwide ?_
            · rw [heq.1]
              exact hmark
            · rw [heq.1]
              exact hmark

/-- The bytes of the first characters of a text. -/
def covered (text : List Char) (size : Nat) : Nat := byteSize (text.take size)

theorem covered_zero (text : List Char) : covered text 0 = 0 := by simp [covered]

theorem covered_cons (c : Char) (rest : List Char) (size : Nat) :
    covered (c :: rest) (size + 1) = c.utf8Size + covered rest size := rfl

/-- Sizes add up: the bytes of a first and a second part are those of both
together. -/
theorem covered_add (text : List Char) (first second : Nat) :
    covered text (first + second) = covered text first + covered (text.drop first) second := by
  rw [covered, List.take_add, byteSize_append, covered, covered]

theorem covered_takeWhile (condition : Char → Bool) (text : List Char) :
    covered text (text.takeWhile condition).length = byteSize (text.takeWhile condition) := by
  rw [covered, ← List.prefix_iff_eq_take.1 (List.takeWhile_prefix condition)]

/-- More characters take more bytes, so comparing matches by bytes and by
characters prefers the same one. -/
theorem covered_lt {text : List Char} {size more : Nat} (hlt : size < more)
    (hle : more ≤ text.length) : covered text size < covered text more := by
  obtain ⟨extra, rfl⟩ := Nat.exists_eq_add_of_lt hlt
  have hdrop : text.drop size ≠ [] := by
    rw [ne_eq, List.drop_eq_nil_iff]
    omega
  obtain ⟨c, rest, hrest⟩ := List.exists_cons_of_ne_nil hdrop
  have hpositive := c.utf8Size_pos
  rw [Nat.add_assoc, covered_add, hrest, covered_cons]
  omega

/-- Counting bytes while a condition holds stops behind whole characters, and
counts the bytes of the run that the condition takes. -/
theorem StandsAt.countWhile_eq {bytes : List UInt8} {offset : Nat} {rest : List Char}
    (h : StandsAt bytes offset rest) {condition : Char → Bool} (htest : IsAsciiTest condition) :
    countWhile bytes offset condition = byteSize (rest.takeWhile condition) := by
  rw [countWhile, h.drop_eq, ← asBytes, takeWhile_asBytes htest, length_asBytes]

/-- Between an offset and one behind some characters the bytes of these
characters stand. -/
theorem StandsAt.between?_eq {bytes : List UInt8} {offset : Nat} {rest : List Char}
    (h : StandsAt bytes offset rest) (size : Nat) :
    between? bytes offset (offset + covered rest size) = some (asBytes (rest.take size)) := by
  have hlength := (h.drop size).le_length
  have hsplit : encode rest = encode (rest.take size) ++ encode (rest.drop size) := by
    rw [← encode_append, List.take_append_drop]
  have hcovered : covered rest size = (encode (rest.take size)).length := (length_encode _).symm
  rw [between?, if_pos ⟨Nat.le_add_right _ _, hlength⟩, h.drop_eq, Nat.add_sub_cancel_left,
    hcovered, hsplit, List.take_left, asBytes]

/-- Between two offsets the bytes of a text are found unless it ends before. -/
theorem StandsAt.between?_take {bytes : List UInt8} {offset : Nat} {rest : List Char}
    (h : StandsAt bytes offset rest) (size : Nat) :
    between? bytes offset (offset + size) =
      if size ≤ (asBytes rest).length then some ((asBytes rest).take size) else none := by
  rw [between?, h.drop_eq, h.length_eq, length_asBytes, Nat.add_sub_cancel_left, List.map_take,
    asBytes]
  simp only [Nat.le_add_right, true_and, Nat.add_le_add_iff_left]

/-- A step that passes over bytes which are not ASCII passes over what is left
of a character. -/
theorem StandsAt.skip_tails {α : Type} {next : Nat → α} {bytes : List UInt8} {offset : Nat}
    {c : Char} {rest : List Char} (h : StandsAt bytes offset (c :: rest))
    (hstep : ∀ place d, at? bytes place = some d → ¬IsAscii d → next place = next (place + 1)) :
    next (offset + 1) = next (offset + c.utf8Size) := by
  have hpass (front tails behind : List UInt8) (hbytes : bytes = front ++ (tails ++ behind))
      (htails : ∀ byte ∈ tails, ¬IsAscii (charOf byte)) :
      next front.length = next (front.length + tails.length) := by
    induction tails generalizing front with
    | nil => rfl
    | cons byte tails ih =>
        obtain ⟨hbyte, hothers⟩ := List.forall_mem_cons.1 htails
        have hat : at? bytes front.length = some (charOf byte) := by
          simp [at?, hbytes]
        have hrest := ih (front ++ [byte]) (by simp [hbytes]) hothers
        rw [List.length_append, List.length_singleton] at hrest
        rw [hstep _ _ hat hbyte, hrest, List.length_cons]
        exact congrArg next (by omega)
  obtain ⟨front, hbytes, rfl⟩ := h
  obtain ⟨lead, tails, hlead⟩ := List.exists_cons_of_ne_nil (encodeChar_ne_nil c)
  have hsize : c.utf8Size = tails.length + 1 := by
    rw [← length_encodeChar, hlead, List.length_cons]
  have htails : ∀ byte ∈ tails, ¬IsAscii (charOf byte) := by
    rcases bytes_of_char c with ⟨hascii, -⟩ | ⟨-, hwide⟩
    · have hnone : tails = [] := by
        rw [utf8Size_of_isAscii hascii] at hsize
        exact List.length_eq_zero_iff.1 (by omega)
      simp [hnone]
    · intro byte hbyte
      rw [hlead] at hwide
      exact hwide _ (List.mem_map_of_mem (List.mem_cons_of_mem _ hbyte))
  have hall := hpass (front ++ [lead]) tails (encode rest)
    (by rw [hbytes, encode_cons, hlead]; simp) htails
  rw [List.length_append, List.length_singleton] at hall
  rw [hall, hsize]
  exact congrArg next (by omega)

end ConfigNotation.Bytes
