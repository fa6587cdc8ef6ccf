import ConfigNotation.Proofs.Bytes.Matchers

/-!
The patterns of numbers over bytes. They look at the characters of ASCII behind an offset, and
once more at the bytes between the two ends of the digits.
-/

namespace ConfigNotation.Bytes

open Text Pattern

section

variable (bytes : List UInt8)

/-- An integer with a radix mark and at least one digit or underscore behind
it. -/
def radixInteger? (offset : Nat) : Option Nat :=
  let digits (isDigit : Char → Bool) : Option Nat :=
    let size := countWhile bytes (offset + 2) fun c => isDigit c || c == '_'
    if 0 < size then some (2 + size) else none
  match between? bytes offset (offset + 2) with
  | some ['0', 'x'] => digits isHexDigit
  | some ['0', 'o'] => digits isOctalDigit
  | some ['0', 'b'] => digits isBinaryDigit
  | _ => none

/-- The offset behind a point and the digits behind it, if there are any. -/
def fractionEnd (offset : Nat) : Nat :=
  if at? bytes offset = some '.' then
    let size := countWhile bytes (offset + 1) isDecimalChar
    if 0 < size then offset + 1 + size else offset
  else offset

/-- The offset behind a mark, a sign and the digits of an exponent, if there are
any digits. -/
def exponentEnd (offset : Nat) : Nat :=
  if at? bytes offset = some 'e' then
    let sign := at? bytes (offset + 1)
    let digits := if sign = some '+' ∨ sign = some '-' then offset + 2 else offset + 1
    let size := countWhile bytes digits isDecimalChar
    if 0 < size then digits + size else offset
  else offset

/-- The offset behind a decimal, whose digits before the exponent are looked
through. -/
def decimalEnd? (offset : Nat) : Checked (Option Nat) := do
  let stop := fractionEnd bytes (offset + countWhile bytes offset isDecimalChar)
  let digits ← between? bytes offset stop
  return if digits.any Char.isDigit then some (exponentEnd bytes stop) else none

def signSize (offset : Nat) : Nat := if at? bytes offset = some '-' then 1 else 0

def magnitudeEnd? (offset : Nat) : Checked (Option Nat) :=
  match radixInteger? bytes offset with
  | some size => return some (offset + size)
  | none => do
      match ← fixed? bytes "Infinity".toList offset with
      | some size => return some (offset + size)
      | none =>
          match ← fixed? bytes "NaN".toList offset with
          | some size => return some (offset + size)
          | none => decimalEnd? bytes offset

def number? (offset : Nat) : Checked (Option Nat) := do
  let stop? ← magnitudeEnd? bytes (offset + signSize bytes offset)
  return stop?.map (· - offset)

/-- The digits of an integer without sign: with a radix mark, or decimal. -/
def integer? (offset : Nat) : Checked (Option Nat) :=
  match radixInteger? bytes offset with
  | some size => return some size
  | none => do
      let size := countWhile bytes offset isDecimalChar
      let digits ← between? bytes offset (offset + size)
      return if digits.any Char.isDigit then some size else none

def bigInt? (offset : Nat) : Checked (Option Nat) := do
  let sign := signSize bytes offset
  let start := offset + sign
  return (← integer? bytes start).bind fun size =>
    if at? bytes (start + size) = some 'n' then some (sign + size + 1) else none

end

theorem isAsciiTest_isDecimalChar : IsAsciiTest isDecimalChar :=
  isAsciiTest_isDigit.or (isAsciiTest_beq (by decide))

/-- Characters up to one of ASCII. -/
theorem isAsciiTest_range (least : Char) {most : Char} (h : IsAscii most) :
    IsAsciiTest fun c => decide (least ≤ c) && decide (c ≤ most) := by
  refine isAsciiTest_of fun c hc => ?_
  simp only [Bool.and_eq_true, decide_eq_true_eq] at hc
  exact Nat.lt_of_le_of_lt (show c.toNat ≤ most.toNat from hc.2) h

theorem isAsciiTest_isHexDigit : IsAsciiTest isHexDigit :=
  (isAsciiTest_isDigit.or (isAsciiTest_range 'a' (by decide))).or
    (isAsciiTest_range 'A' (by decide))

theorem isAsciiTest_isOctalDigit : IsAsciiTest isOctalDigit := isAsciiTest_range '0' (by decide)

theorem isAsciiTest_isBinaryDigit : IsAsciiTest isBinaryDigit :=
  (isAsciiTest_beq (by decide)).or (isAsciiTest_beq (by decide))

/-- The digits behind a mark of a radix are over at the same place. -/
theorem radixRun_eq {bytes : List UInt8} {offset : Nat} {mark : Char} {behind : List Char}
    {isDigit : Char → Bool} (h : StandsAt bytes offset ('0' :: mark :: behind))
    (hmark : IsAscii mark) (htest : IsAsciiTest isDigit) :
    (if 0 < countWhile bytes (offset + 2) (fun c => isDigit c || c == '_') then
      some (2 + countWhile bytes (offset + 2) fun c => isDigit c || c == '_') else none) =
    (if 0 < (behind.takeWhile fun c => isDigit c || c == '_').length then
      some ((behind.takeWhile fun c => isDigit c || c == '_').length + 2) else none).map
        (covered ('0' :: mark :: behind)) := by
  have hbehind := h.tail.tail
  rw [utf8Size_of_isAscii (show IsAscii '0' by decide), utf8Size_of_isAscii hmark] at hbehind
  rw [hbehind.countWhile_eq (htest.or (isAsciiTest_beq (by decide))), ← covered_takeWhile]
  generalize hrun : behind.takeWhile (fun c => isDigit c || c == '_') = run
  have hpositive : 0 < covered behind run.length ↔ 0 < run.length := by
    rw [← hrun, covered_takeWhile, hrun]
    cases run with
    | nil => simp
    | cons c others => simp [c.utf8Size_pos]
  simp only [hpositive]
  split
  · rw [Option.map_some, covered_cons, covered_cons, utf8Size_of_isAscii (by decide),
      utf8Size_of_isAscii hmark]
    exact congrArg some (by omega)
  · rfl

section

variable {bytes : List UInt8} {offset : Nat} {rest : List Char} (h : StandsAt bytes offset rest)

include h

/-- Two bytes of ASCII stand at an offset if the characters do. -/
theorem between?_two_iff {first second : Char} (hfirst : IsAscii first) (hsecond : IsAscii second) :
    between? bytes offset (offset + 2) = some [first, second] ↔
      ∃ behind, rest = first :: second :: behind := by
  have hword : ∀ c ∈ [first, second], IsAscii c := by simp [hfirst, hsecond]
  have hbegins := isPrefixOf_asBytes hword rest
  rw [h.between?_take, Option.ite_none_right_eq_some, Option.some.injEq]
  constructor
  · rintro ⟨-, htake⟩
    have hfound : [first, second].isPrefixOf (asBytes rest) = true := by
      rw [List.isPrefixOf_iff_prefix, ← htake]
      exact List.take_prefix _ _
    rw [hbegins, List.isPrefixOf_iff_prefix] at hfound
    obtain ⟨behind, rfl⟩ := hfound
    exact ⟨behind, rfl⟩
  · rintro ⟨behind, rfl⟩
    have hfound : [first, second].isPrefixOf (asBytes (first :: second :: behind)) = true := by
      rw [hbegins]
      simp
    obtain ⟨others, heq⟩ := List.isPrefixOf_iff_prefix.1 hfound
    rw [← heq]
    exact ⟨by simp, by simp⟩

theorem radixInteger?_eq :
    radixInteger? bytes offset = (Pattern.radixInteger? rest).map (covered rest) := by
  have hmark (mark : Char) (hascii : IsAscii mark) :
      between? bytes offset (offset + 2) = some ['0', mark] ↔
        ∃ behind, rest = '0' :: mark :: behind :=
    between?_two_iff h (by decide) hascii
  rw [radixInteger?]
  dsimp only
  split
  · next hbytes =>
    obtain ⟨behind, rfl⟩ := (hmark 'x' (by decide)).1 hbytes
    exact radixRun_eq h (by decide) isAsciiTest_isHexDigit
  · next hbytes =>
    obtain ⟨behind, rfl⟩ := (hmark 'o' (by decide)).1 hbytes
    exact radixRun_eq h (by decide) isAsciiTest_isOctalDigit
  · next hbytes =>
    obtain ⟨behind, rfl⟩ := (hmark 'b' (by decide)).1 hbytes
    exact radixRun_eq h (by decide) isAsciiTest_isBinaryDigit
  · next hhex hoctal hbinary =>
    unfold Pattern.radixInteger?
    split
    · next behind => exact absurd ((hmark 'x' (by decide)).2 ⟨behind, rfl⟩) hhex
    · next behind => exact absurd ((hmark 'o' (by decide)).2 ⟨behind, rfl⟩) hoctal
    · next behind => exact absurd ((hmark 'b' (by decide)).2 ⟨behind, rfl⟩) hbinary
    · rfl

/-- A run of digits is over at the same place. -/
theorem decimalRun_eq : countWhile bytes offset isDecimalChar =
    covered rest (decimalRun rest).length := by
  rw [h.countWhile_eq isAsciiTest_isDecimalChar, ← covered_takeWhile]
  rfl

theorem decimalRun_pos_iff : 0 < countWhile bytes offset isDecimalChar ↔ decimalRun rest ≠ [] := by
  rw [h.countWhile_eq isAsciiTest_isDecimalChar, decimalRun]
  cases rest.takeWhile isDecimalChar with
  | nil => simp
  | cons c others => simp [c.utf8Size_pos]

theorem fractionEnd_eq : fractionEnd bytes offset = offset + covered rest (fractionSize rest) := by
  by_cases hpoint : rest.head? = some '.'
  · obtain ⟨behind, rfl⟩ := List.head?_eq_some_iff.1 hpoint
    have hbehind := h.tail_of_isAscii (by decide)
    rw [fractionEnd, if_pos ((h.at?_eq_some_iff (by decide)).2 hpoint), fractionSize]
    simp only [decimalRun_pos_iff hbehind, ne_eq, ite_not]
    split
    · rw [covered_zero, Nat.add_zero]
    · rw [decimalRun_eq hbehind, covered_cons, utf8Size_of_isAscii (by decide), Nat.add_assoc]
  · have hnone : fractionSize rest = 0 := by
      unfold fractionSize
      split
      · exact absurd rfl hpoint
      · rfl
    rw [fractionEnd, if_neg (mt (h.at?_eq_some_iff (by decide)).1 hpoint), hnone, covered_zero,
      Nat.add_zero]

/-- An exponent ends at the same place over bytes. Where no digit follows its
mark, the mark is not counted. -/
theorem exponentEnd_eq : exponentEnd bytes offset = offset + covered rest (exponentSize rest) := by
  by_cases hmark : rest.head? = some 'e'
  · obtain ⟨behind, rfl⟩ := List.head?_eq_some_iff.1 hmark
    have hbehind := h.tail_of_isAscii (by decide)
    have hplus := hbehind.at?_eq_some_iff (show IsAscii '+' by decide)
    have hminus := hbehind.at?_eq_some_iff (show IsAscii '-' by decide)
    rw [exponentEnd, if_pos ((h.at?_eq_some_iff (by decide)).2 hmark), exponentSize]
    simp only [hplus, hminus, Bool.or_eq_true, beq_iff_eq]
    by_cases hsign : behind.head? = some '+' ∨ behind.head? = some '-'
    · obtain ⟨sign, others, rfl, hascii⟩ : ∃ sign others, behind = sign :: others ∧
          IsAscii sign := by
        rcases hsign with hsign | hsign <;> obtain ⟨others, rfl⟩ := List.head?_eq_some_iff.1 hsign
        · exact ⟨'+', others, rfl, by decide⟩
        · exact ⟨'-', others, rfl, by decide⟩
      have hothers := hbehind.tail_of_isAscii hascii
      simp only [if_pos hsign, List.drop_succ_cons, List.drop_zero, decimalRun_pos_iff hothers,
        ne_eq, ite_not]
      split
      · rw [covered_zero, Nat.add_zero]
      · rw [decimalRun_eq hothers, show 1 + 1 + (decimalRun others).length =
          (decimalRun others).length + 1 + 1 by omega, covered_cons, covered_cons,
          utf8Size_of_isAscii (by decide), utf8Size_of_isAscii hascii]
        omega
    · simp only [if_neg hsign, List.drop_zero, decimalRun_pos_iff hbehind, ne_eq, ite_not]
      split
      · rw [covered_zero, Nat.add_zero]
      · rw [decimalRun_eq hbehind, show 1 + 0 + (decimalRun behind).length =
          (decimalRun behind).length + 1 by omega, covered_cons, utf8Size_of_isAscii (by decide)]
        omega
  · have hnone : exponentSize rest = 0 := by
      unfold exponentSize
      split
      · exact absurd rfl hmark
      · rfl
    rw [exponentEnd, if_neg (mt (h.at?_eq_some_iff (by decide)).1 hmark), hnone, covered_zero,
      Nat.add_zero]

theorem decimalEnd?_eq :
    decimalEnd? bytes offset = some ((decimal? rest).map (offset + covered rest ·)) := by
  have hwhole := h.drop (decimalRun rest).length
  rw [← covered] at hwhole
  have hfraction := fractionEnd_eq hwhole
  rw [Nat.add_assoc, ← covered_add] at hfraction
  rw [decimalEnd?, decimal?, decimalRun_eq h]
  simp only [hfraction]
  generalize (decimalRun rest).length + fractionSize (rest.drop (decimalRun rest).length) = size
  have hstop := h.drop size
  rw [← covered] at hstop
  simp only [h.between?_eq, Option.bind_eq_bind, Option.bind_some,
    any_asBytes isAsciiTest_isDigit, exponentEnd_eq hstop]
  split
  · rw [Option.map_some, covered_add, Nat.add_assoc]
    rfl
  · rfl

/-- A minus sign is found or not, and the rest stands behind it. -/
theorem signSize_cases :
    (∃ behind, rest = '-' :: behind ∧ signSize bytes offset = 1 ∧
      StandsAt bytes (offset + 1) behind) ∨
    (rest.head? ≠ some '-' ∧ signSize bytes offset = 0) := by
  by_cases hminus : rest.head? = some '-'
  · obtain ⟨behind, rfl⟩ := List.head?_eq_some_iff.1 hminus
    have hbehind := h.tail_of_isAscii (by decide)
    exact .inl ⟨behind, rfl, if_pos ((h.at?_eq_some_iff (by decide)).2 hminus), hbehind⟩
  · exact .inr ⟨hminus, if_neg (mt (h.at?_eq_some_iff (by decide)).1 hminus)⟩

theorem magnitudeEnd?_eq :
    magnitudeEnd? bytes offset = some ((magnitude? rest).map (offset + covered rest ·)) := by
  have hinfinity := fixed?_eq h (show ∀ c ∈ "Infinity".toList, IsAscii c by decide)
  have hnan := fixed?_eq h (show ∀ c ∈ "NaN".toList, IsAscii c by decide)
  rw [magnitudeEnd?, magnitude?, radixInteger?_eq h, hinfinity, hnan, decimalEnd?_eq h]
  cases Pattern.radixInteger? rest with
  | some size => rfl
  | none =>
      cases Pattern.fixed? "Infinity".toList rest with
      | some size => rfl
      | none =>
          cases Pattern.fixed? "NaN".toList rest with
          | some size => rfl
          | none => rfl

theorem integer?_eq :
    integer? bytes offset = some ((Pattern.integer? rest).map (covered rest)) := by
  rw [integer?, Pattern.integer?, radixInteger?_eq h]
  cases Pattern.radixInteger? rest with
  | some size => rfl
  | none =>
      have hrun : rest.take (decimalRun rest).length = decimalRun rest := take_takeWhile _ rest
      simp only [Option.map_none, decimalRun_eq h, h.between?_eq, hrun, Option.bind_eq_bind,
        Option.bind_some, any_asBytes isAsciiTest_isDigit]
      split
      · rfl
      · rfl

/-- A number is matched over bytes as over characters, with its sign, in every
radix. -/
theorem number?_eq : number? bytes offset = some ((Pattern.number? rest).map (covered rest)) := by
  rw [number?, Pattern.number?]
  rcases signSize_cases h with ⟨behind, rfl, hsize, hbehind⟩ | ⟨hminus, hsize⟩
  · rw [hsize, magnitudeEnd?_eq hbehind, signed?]
    simp only [Option.bind_eq_bind, Option.bind_some, Option.map_map]
    refine congrArg some (Option.map_congr fun size _ => ?_)
    simp only [Function.comp_apply, covered_cons, utf8Size_of_isAscii (show IsAscii '-' by decide)]
    omega
  · have hsigned : signed? magnitude? rest = magnitude? rest := by
      unfold signed?
      split
      · exact absurd rfl hminus
      · rfl
    rw [hsize, Nat.add_zero, magnitudeEnd?_eq h, hsigned]
    simp only [Option.bind_eq_bind, Option.bind_some, Option.map_map]
    refine congrArg some (Option.map_congr fun size _ => ?_)
    simp only [Function.comp_apply]
    omega

/-- An integer and the letter behind it, behind a sign of some size. -/
theorem integerEnd_eq (sign : Nat) :
    (((Pattern.integer? rest).map (covered rest)).bind fun size =>
      if at? bytes (offset + size) = some 'n' then some (sign + size + 1) else none) =
    ((Pattern.integer? rest).bind fun size =>
      if (rest.drop size).head? == some 'n' then some (size + 1) else none).map
        (sign + covered rest ·) := by
  cases Pattern.integer? rest with
  | none => rfl
  | some size =>
      have hstop := h.drop size
      rw [← covered] at hstop
      simp only [Option.map_some, Option.bind_some,
        hstop.at?_eq_some_iff (show IsAscii 'n' by decide), beq_iff_eq]
      split
      · next hletter =>
        obtain ⟨behind, hbehind⟩ := List.head?_eq_some_iff.1 hletter
        rw [Option.map_some, covered_add, hbehind, covered_cons, covered_zero,
          utf8Size_of_isAscii (by decide), Nat.add_assoc]
      · rfl

/-- An integer of any size is matched over bytes as over characters, with the
letter at its end. -/
theorem bigInt?_eq : bigInt? bytes offset = some ((Pattern.bigInt? rest).map (covered rest)) := by
  rw [bigInt?, Pattern.bigInt?]
  rcases signSize_cases h with ⟨behind, rfl, hsize, hbehind⟩ | ⟨hminus, hsize⟩
  · simp only [hsize, integer?_eq hbehind, signed?, Option.bind_eq_bind, Option.bind_some,
      integerEnd_eq hbehind, Option.map_map]
    refine congrArg some (Option.map_congr fun size _ => ?_)
    simp only [Function.comp_apply, covered_cons, utf8Size_of_isAscii (show IsAscii '-' by decide)]
  · have hsigned (length? : List Char → Option Nat) : signed? length? rest = length? rest := by
      unfold signed?
      split
      · exact absurd rfl hminus
      · rfl
    have hend := integerEnd_eq h 0
    simp only [Nat.zero_add] at hend
    simp only [hsize, Nat.add_zero, Nat.zero_add, integer?_eq h, hsigned, Option.bind_eq_bind,
      Option.bind_some, hend]
    rfl

end

end ConfigNotation.Bytes
