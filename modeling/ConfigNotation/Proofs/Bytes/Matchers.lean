import ConfigNotation.Proofs.Bytes.Access
import ConfigNotation.Proofs.Token.Spelling

/-!
The patterns of tokens over bytes, as the scanner runs them: each is given the bytes of a whole
text and an offset. At a boundary between characters it covers the bytes of the characters that
the pattern covers. Here are those of marks, words, names and paths, which look at characters of
ASCII only.
-/

namespace ConfigNotation.Bytes

open Text Utf8 Pattern

section

variable (bytes : List UInt8)

def fixed? (word : List Char) (offset : Nat) : Checked (Option Nat) := do
  let rest ← from? bytes offset
  return if word.isPrefixOf rest then some word.length else none

def freeBefore? (offset : Nat) : Checked Bool :=
  if offset = 0 then some true else (at? bytes (offset - 1)).map fun c => !isWordChar c

/-- A fixed word, with the bytes on both sides looked at. -/
def word? (word : List Char) (offset : Nat) : Checked (Option Nat) := do
  match ← fixed? bytes word offset with
  | none => return none
  | some size =>
      let before ← freeBefore? bytes offset
      let behind := (at? bytes (offset + size)).all fun c => !isWordChar c
      return if before && behind then some size else none

def ident? (offset : Nat) : Option Nat :=
  (at? bytes offset).bind fun c =>
    if isIdentStart c then some (1 + countWhile bytes (offset + 1) isWordChar) else none

def assocKey? (offset : Nat) : Option Nat :=
  if at? bytes offset = some '@' then (ident? bytes (offset + 1)).map (· + 1) else none

theorem lt_length_of_at? {bytes : List UInt8} {offset : Nat} {c : Char}
    (h : at? bytes offset = some c) : offset < bytes.length := by
  obtain ⟨byte, hbyte, -⟩ := Option.map_eq_some_iff.1 h
  exact (List.getElem?_eq_some_iff.1 hbyte).1

/-- The offset behind the segments of a path, with the number of those that were
counted. -/
def segmentsEnd? (offset segments : Nat) : Option (Nat × Nat) :=
  match _h : at? bytes offset with
  | none => some (offset, segments)
  | some mark =>
      if mark = '.' then
        match at? bytes (offset + 1) with
        | none => some (offset, segments)
        | some c =>
            if isIdentStart c then
              (ident? bytes (offset + 1)).bind fun size =>
                segmentsEnd? (offset + 1 + size) (segments + 1)
            else if c.isDigit then
              segmentsEnd? (offset + 1 + countWhile bytes (offset + 1) Char.isDigit)
                (segments + 1)
            else some (offset, segments)
      else some (offset, segments)
termination_by bytes.length - offset
decreasing_by all_goals have := lt_length_of_at? _h; omega

def path? (offset : Nat) : Option Nat :=
  (ident? bytes offset).bind fun size =>
    (segmentsEnd? bytes (offset + size) 0).bind fun (stop, segments) =>
      if 0 < segments then some (stop - offset) else none

end

theorem isAscii_of_isWordChar {c : Char} (h : isWordChar c = true) : IsAscii c := by
  delta isWordChar Char.isAlphanum Char.isAlpha Char.isUpper Char.isLower Char.isDigit at h
  simp only [Bool.or_eq_true, Bool.and_eq_true, decide_eq_true_eq, beq_iff_eq,
    UInt32.le_iff_toNat_le, ge_iff_le] at h
  rcases h with h | rfl
  · have hlast : 'z'.val.toNat = 122 ∧ 'Z'.val.toNat = 90 ∧ '9'.val.toNat = 57 := ⟨rfl, rfl, rfl⟩
    have hcode : c.toNat = c.val.toNat := rfl
    rw [IsAscii]
    omega
  · decide

theorem isAsciiTest_isWordChar : IsAsciiTest isWordChar :=
  isAsciiTest_of fun _ => isAscii_of_isWordChar

theorem isAsciiTest_isIdentStart : IsAsciiTest isIdentStart :=
  isAsciiTest_of fun _ h => isAscii_of_isWordChar (isWordChar_of_isIdentStart h)

theorem isAsciiTest_isDigit : IsAsciiTest Char.isDigit := by
  refine isAsciiTest_of fun c h => ?_
  have hrange := (Char.isDigit_iff_toNat.1 h).2
  have hnine : '9'.toNat = 57 := rfl
  rw [IsAscii]
  omega

section

variable {bytes : List UInt8} {offset : Nat} {rest : List Char} (h : StandsAt bytes offset rest)

include h

/-- A fixed word is matched over bytes as over characters. All of these words
are of ASCII, so that each byte is a character. -/
theorem fixed?_eq {word : List Char} (hword : ∀ c ∈ word, IsAscii c) :
    fixed? bytes word offset = some ((Pattern.fixed? word rest).map (covered rest)) := by
  rw [fixed?, h.from?_eq, Pattern.fixed?]
  dsimp only [Option.bind_eq_bind, Option.bind_some]
  rw [isPrefixOf_asBytes hword]
  split
  · next hfirst =>
    obtain ⟨behind, rfl⟩ := List.isPrefixOf_iff_prefix.1 hfirst
    have hsize : covered (word ++ behind) word.length = word.length := by
      rw [covered, List.take_left]
      exact byteSize_of_isAscii hword
    rw [Option.map_some, hsize]
    rfl
  · rfl

/-- A name is matched over bytes as over characters, with its size counted in
bytes. -/
theorem ident?_eq : ident? bytes offset = (Pattern.ident? rest).map (covered rest) := by
  cases rest with
  | nil => rw [ident?, h.at?_nil]; rfl
  | cons c behind =>
      obtain ⟨d, hd, htells⟩ := h.at?_cons
      rw [ident?, hd, Option.bind_some, htells.condition_eq isAsciiTest_isIdentStart,
        Pattern.ident?]
      split
      · next hstart =>
        have hbehind := h.tail
        have hsize :=
          utf8Size_of_isAscii (isAscii_of_isWordChar (isWordChar_of_isIdentStart hstart))
        rw [hsize] at hbehind
        rw [hbehind.countWhile_eq isAsciiTest_isWordChar, Option.map_some, Nat.add_comm 1
          (behind.takeWhile isWordChar).length, covered_cons, hsize, covered_takeWhile]
      · rfl

/-- A key is matched over bytes as over characters: the mark, and the name
behind it. -/
theorem assocKey?_eq : assocKey? bytes offset = (Pattern.assocKey? rest).map (covered rest) := by
  by_cases hmark : rest.head? = some '@'
  · obtain ⟨behind, rfl⟩ := List.head?_eq_some_iff.1 hmark
    have hbehind := h.tail_of_isAscii (by decide)
    rw [assocKey?, if_pos ((h.at?_eq_some_iff (by decide)).2 hmark), ident?_eq hbehind,
      Pattern.assocKey?, Option.map_map, Option.map_map]
    refine Option.map_congr fun size _ => ?_
    simp only [Function.comp_apply, covered_cons, utf8Size_of_isAscii (show IsAscii '@' by decide)]
    omega
  · have hnone : Pattern.assocKey? rest = none := by
      unfold Pattern.assocKey?
      split
      · exact absurd rfl hmark
      · rfl
    rw [assocKey?, if_neg (mt (h.at?_eq_some_iff (by decide)).1 hmark), hnone]
    rfl

end

theorem segmentsEnd?_of_none {bytes : List UInt8} {offset : Nat} (h : at? bytes offset = none)
    (segments : Nat) : segmentsEnd? bytes offset segments = some (offset, segments) := by
  rw [segmentsEnd?]
  split
  · rfl
  · next c hc =>
    rw [h] at hc
    cases hc

theorem segmentsEnd?_of_ne {bytes : List UInt8} {offset : Nat} {mark : Char}
    (h : at? bytes offset = some mark) (hne : mark ≠ '.') (segments : Nat) :
    segmentsEnd? bytes offset segments = some (offset, segments) := by
  rw [segmentsEnd?]
  split
  · rfl
  · next c hc =>
    obtain rfl := Option.some.inj (h.symm.trans hc)
    exact if_neg hne

/-- The step of the loop over segments at a point: a name, an index, or
the end where neither follows. -/
theorem segmentsEnd?_of_point {bytes : List UInt8} {offset : Nat}
    (h : at? bytes offset = some '.') (segments : Nat) :
    segmentsEnd? bytes offset segments =
      match at? bytes (offset + 1) with
      | none => some (offset, segments)
      | some c =>
          if isIdentStart c then
            (ident? bytes (offset + 1)).bind fun size =>
              segmentsEnd? bytes (offset + 1 + size) (segments + 1)
          else if c.isDigit then
            segmentsEnd? bytes (offset + 1 + countWhile bytes (offset + 1) Char.isDigit)
              (segments + 1)
          else some (offset, segments) := by
  rw [segmentsEnd?]
  split
  · next hnone =>
    rw [h] at hnone
    cases hnone
  · next c hc =>
    obtain rfl := Option.some.inj (h.symm.trans hc)
    exact if_pos rfl

def segmentChar (index : Bool) (c : Char) : Bool := if index then c.isDigit else isWordChar c

theorem isAsciiTest_segmentChar (index : Bool) : IsAsciiTest (segmentChar index) := by
  cases index with
  | true => exact isAsciiTest_isDigit
  | false => exact isAsciiTest_isWordChar

theorem isAscii_of_segmentChar {index : Bool} {c : Char} (h : segmentChar index c = true) :
    IsAscii c := by
  cases index with
  | true => exact isAscii_of_isWordChar (isWordChar_of_isDigit h)
  | false => exact isAscii_of_isWordChar h

section

variable {bytes : List UInt8} {offset : Nat} {index : Bool} {c : Char} {rest : List Char}
  (h : StandsAt bytes offset (c :: rest))

include h

theorem countWhile_segment_of_mem (hc : segmentChar index c = true) :
    countWhile bytes offset (segmentChar index) =
      1 + countWhile bytes (offset + 1) (segmentChar index) := by
  have hascii := isAscii_of_segmentChar hc
  rw [h.countWhile_eq (isAsciiTest_segmentChar index),
    (h.tail_of_isAscii hascii).countWhile_eq (isAsciiTest_segmentChar index),
    List.takeWhile_cons_of_pos hc, byteSize_cons, utf8Size_of_isAscii hascii]

theorem countWhile_segment_of_not (hc : segmentChar index c = false) :
    countWhile bytes offset (segmentChar index) = 0 := by
  rw [h.countWhile_eq (isAsciiTest_segmentChar index),
    List.takeWhile_cons_of_neg (by simp [hc]), byteSize_nil]

end

theorem segmentChar_point (index : Bool) : segmentChar index '.' = false := by
  cases index with
  | true => decide
  | false => decide

/-- A name covers its first character and those that go on with it. -/
theorem ident?_of_start {bytes : List UInt8} {offset : Nat} {c : Char} {rest : List Char}
    (h : StandsAt bytes offset (c :: rest)) (hstart : isIdentStart c = true) :
    ident? bytes offset = some (1 + countWhile bytes (offset + 1) (segmentChar false)) := by
  obtain ⟨d, hd, htells⟩ := h.at?_cons
  rw [ident?, hd, Option.bind_some, htells.condition_eq isAsciiTest_isIdentStart, if_pos hstart]
  rfl

section

variable {bytes : List UInt8} {offset : Nat} {c : Char} {rest : List Char}

/-- Behind a point and a first character the segment goes on that it begins: a
name, or else an index. -/
theorem segmentsEnd?_of_segment (h : StandsAt bytes offset ('.' :: c :: rest)) (index : Bool)
    (hstart : isIdentStart c = !index) (hfirst : segmentChar index c = true) (segments : Nat) :
    segmentsEnd? bytes offset segments =
      segmentsEnd? bytes (offset + 1 + 1 + countWhile bytes (offset + 1 + 1) (segmentChar index))
        (segments + 1) := by
  have hc := h.tail_of_isAscii (by decide)
  obtain ⟨d, hd, htells⟩ := hc.at?_cons
  rw [segmentsEnd?_of_point ((h.at?_eq_some_iff (by decide)).2 rfl), hd]
  simp only [htells.condition_eq isAsciiTest_isIdentStart, hstart,
    htells.condition_eq isAsciiTest_isDigit]
  cases index with
  | true =>
      have hrun : countWhile bytes (offset + 1) Char.isDigit =
          1 + countWhile bytes (offset + 1 + 1) (segmentChar true) :=
        countWhile_segment_of_mem hc hfirst
      have hdigit : c.isDigit = true := hfirst
      simp only [Bool.not_true, Bool.false_eq_true, if_false, hdigit, if_true, hrun, Nat.add_assoc]
  | false =>
      simp only [Bool.not_false, if_true, ident?_of_start hc hstart, Option.bind_some,
        Nat.add_assoc]

/-- A point that no segment follows is left where it is, even in front of a wide
character, of which only the first byte is looked at. -/
theorem segmentsEnd?_of_stray (h : StandsAt bytes offset ('.' :: c :: rest))
    (hstart : isIdentStart c = false) (hdigit : c.isDigit = false) (segments : Nat) :
    segmentsEnd? bytes offset segments = some (offset, segments) := by
  obtain ⟨d, hd, htells⟩ := (h.tail_of_isAscii (by decide)).at?_cons
  rw [segmentsEnd?_of_point ((h.at?_eq_some_iff (by decide)).2 rfl), hd]
  simp only [htells.condition_eq isAsciiTest_isIdentStart, hstart,
    htells.condition_eq isAsciiTest_isDigit, hdigit]
  rfl

theorem segmentsEnd?_of_last (h : StandsAt bytes offset ['.']) (segments : Nat) :
    segmentsEnd? bytes offset segments = some (offset, segments) := by
  rw [segmentsEnd?_of_point ((h.at?_eq_some_iff (by decide)).2 rfl),
    (h.tail_of_isAscii (by decide)).at?_nil]

end

/-- Behind the segment that goes on at an offset, the further segments of a path
are over at the same place, and there are any if the path goes on. -/
theorem segmentsEnd?_eq {bytes : List UInt8} {offset : Nat} {index : Bool} {rest : List Char}
    (h : StandsAt bytes offset rest) (segments : Nat) :
    ∃ more, segmentsEnd? bytes (offset + countWhile bytes offset (segmentChar index)) segments =
        some (offset + covered rest (pathTail index rest), segments + more) ∧
      (0 < more ↔ (rest.takeWhile (segmentChar index)).length < pathTail index rest) := by
  have hnext {offset size : Nat} {c : Char} {rest : List Char} (hc : IsAscii c) :
      offset + 1 + 1 + covered rest size = offset + covered ('.' :: c :: rest) (size + 2) := by
    rw [covered_cons, covered_cons, utf8Size_of_isAscii (show IsAscii '.' by decide),
      utf8Size_of_isAscii hc]
    omega
  fun_induction pathTail index rest generalizing offset segments with
  | case1 index =>
      refine ⟨0, ?_, by simp⟩
      rw [h.countWhile_eq (isAsciiTest_segmentChar index)]
      exact segmentsEnd?_of_none h.at?_nil segments
  | case2 index c rest hstart ih =>
      have hascii := isAscii_of_isWordChar (isWordChar_of_isIdentStart hstart)
      have hrest := (h.tail_of_isAscii (by decide)).tail_of_isAscii hascii
      obtain ⟨more, hmore, -⟩ := ih hrest (segments + 1)
      refine ⟨more + 1, ?_, by simp [segmentChar_point]⟩
      rw [countWhile_segment_of_not h (segmentChar_point index), Nat.add_zero,
        segmentsEnd?_of_segment h false hstart (isWordChar_of_isIdentStart hstart),
        hmore, hnext hascii, Nat.add_assoc, Nat.add_comm 1]
  | case3 index c rest hstart hdigit ih =>
      have hfirst : segmentChar true c = true := hdigit
      have hascii := isAscii_of_segmentChar hfirst
      have hrest := (h.tail_of_isAscii (by decide)).tail_of_isAscii hascii
      obtain ⟨more, hmore, -⟩ := ih hrest (segments + 1)
      refine ⟨more + 1, ?_, by simp [segmentChar_point]⟩
      rw [countWhile_segment_of_not h (segmentChar_point index), Nat.add_zero,
        segmentsEnd?_of_segment h true (Bool.not_eq_true _ ▸ hstart) hfirst, hmore,
        hnext hascii, Nat.add_assoc, Nat.add_comm 1]
  | case4 index c rest hstart hdigit =>
      refine ⟨0, ?_, by simp⟩
      rw [countWhile_segment_of_not h (segmentChar_point index), Nat.add_zero,
        segmentsEnd?_of_stray h (Bool.not_eq_true _ ▸ hstart) (Bool.not_eq_true _ ▸ hdigit)]
      rfl
  | case5 index c rest hlone hgoes ih =>
      have hgoes : segmentChar index c = true := hgoes
      have hascii := isAscii_of_segmentChar hgoes
      obtain ⟨more, hmore, hany⟩ := ih (h.tail_of_isAscii hascii) segments
      refine ⟨more, ?_, ?_⟩
      · rw [countWhile_segment_of_mem h hgoes, ← Nat.add_assoc, hmore, covered_cons,
          utf8Size_of_isAscii hascii, Nat.add_assoc]
      · rw [List.takeWhile_cons_of_pos hgoes, List.length_cons, hany]
        omega
  | case6 index c rest hlone hgoes =>
      have hstops : segmentChar index c = false := Bool.not_eq_true _ ▸ hgoes
      refine ⟨0, ?_, by simp⟩
      rw [countWhile_segment_of_not h hstops, Nat.add_zero, covered_zero]
      by_cases heq : c = '.'
      · subst heq
        cases rest with
        | nil => exact segmentsEnd?_of_last h segments
        | cons next others => exact (hlone next others rfl rfl).elim
      · obtain ⟨d, hd, htells⟩ := h.at?_cons
        exact segmentsEnd?_of_ne hd (mt (htells.eq_iff (by decide)).1 heq) segments

/-- A path is matched over bytes as over characters. This is the one matcher
with a loop of its own, so it is compared segment by segment. -/
theorem path?_eq {bytes : List UInt8} {offset : Nat} {rest : List Char}
    (h : StandsAt bytes offset rest) :
    path? bytes offset = (Pattern.path? rest).map (covered rest) := by
  rw [path?]
  cases rest with
  | nil => rw [ident?_eq h]; rfl
  | cons c rest =>
      by_cases hstart : isIdentStart c = true
      · have hascii := isAscii_of_isWordChar (isWordChar_of_isIdentStart hstart)
        have hrest := h.tail_of_isAscii hascii
        obtain ⟨segments, hsegments, hany⟩ := @segmentsEnd?_eq bytes (offset + 1) false rest hrest 0
        have hlonger : 0 < 0 + segments ↔
            (Pattern.ident? (c :: rest)).any (· < 1 + pathTail false rest) = true := by
          rw [Nat.zero_add, hany, Pattern.ident?, if_pos hstart, Option.any_some,
            decide_eq_true_eq, Nat.add_lt_add_iff_left]
          rfl
        rw [ident?_of_start h hstart, Option.bind_some, ← Nat.add_assoc, hsegments,
          Option.bind_some, Pattern.path?]
        simp only [hlonger, hstart, Bool.true_and]
        split
        · rw [Option.map_some, Nat.add_comm 1, covered_cons, utf8Size_of_isAscii hascii]
          exact congrArg some (by omega)
        · rfl
      · rw [ident?_eq h, Pattern.ident?, if_neg hstart, Pattern.path?, if_neg (by simp [hstart])]
        rfl

/-- A word is found with the same characters on both sides. -/
theorem word?_eq {word : List Char} (hword : ∀ c ∈ word, IsAscii c) (before rest : List Char) :
    word? (encode (before ++ rest)) word (byteSize before) =
      some ((Pattern.word? word before.getLast? rest).map (covered rest)) := by
  have h := StandsAt.of_append before rest
  have hbefore : freeBefore? (encode (before ++ rest)) (byteSize before) =
      some (before.getLast?.all fun c => !isWordChar c) := by
    rcases List.eq_nil_or_concat before with rfl | ⟨front, c, rfl⟩
    · rfl
    · obtain ⟨d, hd, htells⟩ := at?_last front rest c
      have hsize : byteSize (front ++ [c]) = byteSize front + c.utf8Size := by simp
      have hpositive := c.utf8Size_pos
      have hbytes : front ++ [c] ++ rest = front ++ c :: rest := by simp
      rw [List.concat_eq_append, freeBefore?, hsize, if_neg (by omega), hbytes, hd, Option.map_some,
        htells.condition_eq isAsciiTest_isWordChar.not, List.getLast?_concat, Option.all_some]
  rw [word?, fixed?_eq h hword, Pattern.word?, Pattern.fixed?]
  by_cases hfirst : word.isPrefixOf rest = true
  · have hbehind := (h.drop word.length).at?_all isAsciiTest_isWordChar.not
    rw [← covered] at hbehind
    simp only [hfirst, if_true, Option.map_some, Option.bind_eq_bind, Option.bind_some, hbefore,
      hbehind, Bool.true_and]
    split
    · rfl
    · rfl
  · simp only [hfirst, Bool.false_eq_true, if_false, Option.map_none, Option.bind_eq_bind,
      Option.bind_some, Bool.false_and]
    rfl

end ConfigNotation.Bytes
