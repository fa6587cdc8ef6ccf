import ConfigNotation.Calendar.Reader
import ConfigNotation.Proofs.Calendar.Civil
import ConfigNotation.Proofs.Number.Numeral

/-!
Instants are read from the text that shows them. The fields of the text have a fixed width, so each
of them is read by itself, and date and time of day together are the seconds that were counted.
-/

namespace ConfigNotation

namespace Reader

variable {α β : Type}

/-- A reader that takes something off a text goes on with what is left. -/
theorem run_bind_of {reader : Reader α} {text rest : List Char} {value : α}
    (h : reader.run text = some (value, rest)) (next : α → Reader β) :
    (reader >>= next).run text = (next value).run rest := by
  rw [StateT.run_bind, h]
  rfl

/-- Digits are read as far as they go, or as far as they are wanted. -/
theorem digits_append {least most : Nat} {found : List Char} (hdigits : AreDigits found)
    (hleast : least ≤ found.length) (hmost : found.length ≤ most) (rest : List Char)
    (hrest : ∀ c ∈ (rest.take (most - found.length)).head?, c.isDigit = false) :
    (digits least most).run (found ++ rest) =
      some ((found.length, Nat.ofDigitChars 10 found 0), rest) := by
  have htake : ((found ++ rest).take most).takeWhile Char.isDigit = found := by
    rw [List.take_append, List.take_of_length_le hmost]
    exact takeWhile_append_stop hdigits hrest
  unfold digits
  simp only [StateT.run, htake, List.drop_left]
  rw [if_neg (by omega), Number.digitValues?_of_areDigits hdigits, Option.map_some,
    Number.ofDigitValues_eq_ofDigitChars]

end Reader

namespace Instant

section

variable {width n : Nat}

theorem areDigits_padded (width n : Nat) : AreDigits (padded width n) :=
  areDigits_append.2 ⟨areDigits_zeros _, areDigits_toDigits n⟩

theorem length_padded (hwidth : 0 < width) (h : n < 10 ^ width) :
    (padded width n).length = width := by
  have hlength := (Nat.length_toDigits_le_iff (by decide) hwidth).2 h
  simp only [padded, List.length_append, List.length_replicate]
  omega

theorem ofDigitChars_padded (width n : Nat) : Nat.ofDigitChars 10 (padded width n) 0 = n := by
  rw [padded, Nat.ofDigitChars_append, Nat.ofDigitChars_replicate_zero, Nat.mul_zero,
    Nat.ofDigitChars_ten_toDigits]

/-- A field of a fixed width is read, whatever stands behind it. -/
theorem number_padded (hwidth : 0 < width) (h : n < 10 ^ width) (rest : List Char) :
    (Reader.number width width).run (padded width n ++ rest) = some (n, rest) := by
  have hlength := length_padded hwidth h
  have hread := Reader.digits_append (areDigits_padded width n) (Nat.le_of_eq hlength.symm)
    (Nat.le_of_eq hlength) rest (by simp [hlength])
  rw [Reader.number, StateT.run_map, hread, ofDigitChars_padded]
  rfl

end

/-- Milliseconds are read as nanoseconds, up to the letter of UTC. -/
theorem fraction_padded {millis : Nat} (h : millis < 1000) :
    Reader.fraction.run ('.' :: (padded 3 millis ++ ['Z'])) = some (millis * 1000000, ['Z']) := by
  have hlength : (padded 3 millis).length = 3 := length_padded (by decide) h
  have hdigits : (Reader.digits 1 9).run (padded 3 millis ++ ['Z']) =
      some ((3, millis), ['Z']) := by
    rw [Reader.digits_append (areDigits_padded 3 millis) (by omega) (by omega) ['Z']
      (by simp [hlength]), hlength, ofDigitChars_padded]
  have hnanos : Reader.nanoseconds.run (padded 3 millis ++ ['Z']) =
      some (millis * 1000000, ['Z']) := Reader.run_bind_of hdigits _
  have hpoint (rest : List Char) : (Reader.charIf '.').run ('.' :: rest) = some (true, rest) := rfl
  exact (Reader.run_bind_of (hpoint _) _).trans hnanos

/-- The fields of the text of an instant in a year of four digits. -/
theorem isoInstant_fields {year month day hour minute second millis : Nat} (hyear : year < 10000)
    (hmonth : month < 100) (hday : day < 100) (hhour : hour < 100) (hminute : minute < 100)
    (hsecond : second < 100) (hmillis : millis < 1000) :
    Reader.isoInstant.run (padded 4 year ++ '-' :: (padded 2 month ++ '-' :: (padded 2 day ++
      'T' :: (padded 2 hour ++ ':' :: (padded 2 minute ++ ':' :: (padded 2 second ++
        '.' :: (padded 3 millis ++ ['Z']))))))) =
      some (⟨⟨year, month, day⟩, hour, minute, second, millis * 1000000, 0⟩, []) := by
  refine (Reader.run_bind_of (number_padded (by decide) hyear _) _).trans ?_
  refine (Reader.run_bind_of rfl _).trans ?_
  refine (Reader.run_bind_of (number_padded (by decide) hmonth _) _).trans ?_
  refine (Reader.run_bind_of rfl _).trans ?_
  refine (Reader.run_bind_of (number_padded (by decide) hday _) _).trans ?_
  refine (Reader.run_bind_of rfl _).trans ?_
  refine (Reader.run_bind_of (number_padded (by decide) hhour _) _).trans ?_
  refine (Reader.run_bind_of rfl _).trans ?_
  refine (Reader.run_bind_of (number_padded (by decide) hminute _) _).trans ?_
  refine (Reader.run_bind_of rfl _).trans ?_
  refine (Reader.run_bind_of (number_padded (by decide) hsecond _) _).trans ?_
  exact (Reader.run_bind_of (fraction_padded hmillis) _).trans rfl

def textChars : List Char :=
  ['0', '1', '2', '3', '4', '5', '6', '7', '8', '9', '+', '-', 'T', ':', '.', 'Z']

theorem mem_textChars (instant : Instant) : ∀ c ∈ instant.chars, c ∈ textChars := by
  have hdigits (width n : Nat) : ∀ c ∈ padded width n, c ∈ textChars := fun c hc =>
    List.mem_append_left ['+', '-', 'T', ':', '.', 'Z']
      (isDigit_cases (areDigits_padded width n c hc))
  have hyear : ∀ c ∈ yearText instant.date.year, c ∈ textChars := by
    unfold yearText
    split
    · exact hdigits _ _
    · refine List.forall_mem_cons.2 ⟨?_, hdigits _ _⟩
      split <;> simp [textChars]
  simp only [chars, List.forall_mem_append, List.forall_mem_cons]
  and_intros
  all_goals first
    | exact hyear
    | exact hdigits _ _
    | simp [textChars]

def toMillis (instant : Instant) : Instant :=
  ⟨instant.seconds, instant.nanos / 1000000 * 1000000⟩

theorem secondOfDay_lt (instant : Instant) : instant.secondOfDay < 86400 := by
  unfold secondOfDay secondsPerDay
  omega

/-- The days before the date of an instant and its seconds since midnight are
the seconds that are counted. -/
theorem seconds_eq (instant : Instant) :
    instant.date.toDays * secondsPerDay + instant.secondOfDay = instant.seconds := by
  rw [date, (CivilDate.toDays_ofDays _).1]
  unfold secondOfDay secondsPerDay
  omega

/-- The date of an instant exists. -/
theorem date_exists (instant : Instant) :
    (1 ≤ instant.date.month ∧ instant.date.month ≤ 12) ∧ 1 ≤ instant.date.day ∧
      instant.date.day ≤ CivilDate.daysInMonth instant.date.year instant.date.month :=
  (CivilDate.toDays_ofDays (instant.seconds / secondsPerDay)).2

section

variable {instant : Instant} (hyear : 0 ≤ instant.date.year ∧ instant.date.year ≤ 9999)
  (hnanos : instant.nanos < 1000000000)

include hyear hnanos

/-- The text of an instant that is no leap second, field by field. -/
theorem chars_eq :
    instant.chars = padded 4 instant.date.year.toNat ++ '-' :: (padded 2 instant.date.month ++
      '-' :: (padded 2 instant.date.day ++ 'T' :: (padded 2 (instant.secondOfDay / 3600) ++
        ':' :: (padded 2 (instant.secondOfDay / 60 % 60) ++
          ':' :: (padded 2 (instant.secondOfDay % 60) ++
            '.' :: (padded 3 (instant.nanos / 1000000) ++ ['Z'])))))) := by
  have hleap : ¬1000000000 ≤ instant.nanos := Nat.not_le.2 hnanos
  simp only [chars, yearText, if_pos hyear, hleap, if_false, Nat.add_zero, Nat.sub_zero,
    List.append_assoc, List.cons_append]

/-- The form that is tried first reads the date, the time of day and the
milliseconds. -/
theorem isoInstant_chars :
    Reader.isoInstant.readAll? instant.chars =
      some ⟨instant.date, instant.secondOfDay / 3600, instant.secondOfDay / 60 % 60,
        instant.secondOfDay % 60, instant.toMillis.nanos, 0⟩ := by
  obtain ⟨hmonth, hday⟩ := instant.date_exists
  have hlast : CivilDate.daysInMonth instant.date.year instant.date.month ≤ 31 :=
    CivilDate.daysInMonth_le _ _
  have hsecond := instant.secondOfDay_lt
  have hread := isoInstant_fields (by omega : instant.date.year.toNat < 10000)
    (by omega : instant.date.month < 100) (by omega : instant.date.day < 100)
    (by omega : instant.secondOfDay / 3600 < 100) (by omega : instant.secondOfDay / 60 % 60 < 100)
    (by omega : instant.secondOfDay % 60 < 100) (by omega : instant.nanos / 1000000 < 1000)
  rw [← chars_eq hyear hnanos, Int.toNat_of_nonneg hyear.1] at hread
  rw [Reader.readAll?, hread]
  rfl

/-- Date and time of day of an instant lead back to it, but for what is less
than a millisecond. -/
theorem ofLocal?_fields :
    ofLocal? ⟨instant.date, instant.secondOfDay / 3600, instant.secondOfDay / 60 % 60,
      instant.secondOfDay % 60, instant.toMillis.nanos, 0⟩ = some instant.toMillis := by
  obtain ⟨hmonth, hday⟩ := instant.date_exists
  have hsecond := instant.secondOfDay_lt
  have hvalid : instant.date.isValid = true := by
    simp only [CivilDate.isValid, Bool.and_eq_true, decide_eq_true_eq]
    unfold CivilDate.firstYear CivilDate.lastYear
    omega
  have hclock : ((instant.secondOfDay / 3600 : Nat) : Int) * 3600 +
      (instant.secondOfDay / 60 % 60 : Nat) * 60 + (instant.secondOfDay % 60 : Nat) =
        instant.secondOfDay := by
    omega
  have hdate : date ⟨instant.seconds, instant.toMillis.nanos⟩ = instant.date := rfl
  have hfields : instant.secondOfDay / 3600 < 24 ∧ instant.secondOfDay / 60 % 60 < 60 ∧
      instant.secondOfDay % 60 ≤ 60 := by
    omega
  have hleap : ¬instant.secondOfDay % 60 = 60 := by omega
  have hmillis : instant.toMillis.nanos < 1000000000 := by
    change instant.nanos / 1000000 * 1000000 < 1000000000
    omega
  simp only [ofLocal?, beq_iff_eq, hleap, if_false, Nat.add_zero, Int.sub_zero, hclock,
    instant.seconds_eq, hdate, hvalid, hmillis, hfields, decide_true]
  rfl

/-- The text of an instant is read as this instant, but for what is less than a
millisecond. -/
theorem ofText?_chars : ofText? instant.chars = some instant.toMillis := by
  have htrim : Text.trim instant.chars = instant.chars := by
    apply Text.trim_of_forall
    have hblank : ∀ c ∈ textChars, Text.isBlank c = false := by
      simp only [textChars, List.forall_mem_cons]
      and_intros
      all_goals first | exact List.forall_mem_nil _ | decide
    exact fun c hc => hblank c (instant.mem_textChars c hc)
  have hfirst : (Reader.timeForms.findSome? fun form =>
      (form.readAll? instant.chars).bind ofLocal?) = some instant.toMillis := by
    rw [Reader.timeForms, List.findSome?_cons, isoInstant_chars hyear hnanos, Option.bind_some,
      ofLocal?_fields hyear hnanos]
  rw [ofText?, htrim, hfirst]
  rfl

end

end Instant

end ConfigNotation
