import ConfigNotation.Proofs.Json.Unambiguous
import ConfigNotation.Proofs.Source.Numbers
import ConfigNotation.Value.Text

/-!
The quotation of a value is a JSON text. It denotes the image of the value and nothing else.
-/

namespace ConfigNotation

/-- The decimal that a finite number is written as, as a rational number. -/
def Number.written : Number → ℚ
  | finite negative magnitude =>
      Json.signed negative (if magnitude.isZero then 0 else magnitude.shortest.value)
  | _ => 0

namespace Value

mutual

def image : Value → Json
  | null | undefined => .null
  | boolean value => .boolean value
  | number value => if value.isFinite then .number value.written else .null
  | bigInt value => .number value
  | string text => .string (string text).text
  | date value => .string (date value).text
  | regExp _ => .object []
  | buffer value => .string (buffer value).text
  | array items => .array (itemImages items)
  | object ⟨entries⟩ => .object (entryImages entries)

def itemImages : List Value → List Json
  | [] => []
  | item :: rest => item.image :: itemImages rest

/-- The images of entries. Those that are undefined are left out. -/
def entryImages : List (String × Value) → List (String × Json)
  | [] => []
  | (_, undefined) :: rest => entryImages rest
  | (key, value) :: rest => (key, value.image) :: entryImages rest

end

end Value

/-! Numbers. -/

theorem head?_toDigits {n : Nat} (h : n ≠ 0) : (Nat.toDigits 10 n).head? ≠ some '0' := by
  induction n using Nat.strongRecOn with
  | ind n ih =>
    rw [Nat.toDigits_eq_if (by decide)]
    split
    · next hsmall =>
      have hdigits : ∀ n < 10, n ≠ 0 → Nat.digitChar n ≠ '0' := by decide
      rw [List.head?_cons]
      exact fun heq => hdigits n hsmall h (Option.some.inj heq)
    · next hlarge =>
      rw [List.head?_append_of_ne_nil _ Nat.toDigits_ne_nil]
      exact ih (n / 10) (by omega) (by omega)

theorem Decimal.head?_significantDigits {decimal : Decimal} (h : decimal.digits ≠ 0) :
    decimal.significantDigits.head? ≠ some '0' := by
  obtain ⟨count, hdigits⟩ := decimal.significantDigits_append_zeros
  have hhead := head?_toDigits h
  rwa [hdigits, List.head?_append_of_ne_nil _ (significantDigits_ne_nil h)] at hhead

/-- No zero is put in front of digits. -/
theorem Numeral.whole_placed {digits : List Char} (place : Int) (hne : digits ≠ [])
    (hdigits : digits.head? ≠ some '0') :
    (placed digits place).whole.head? = some '0' → (placed digits place).whole = ['0'] := by
  obtain ⟨first, others, rfl⟩ := List.exists_cons_of_ne_nil hne
  unfold placed
  split
  · split
    · exact fun _ => rfl
    · next hplace =>
      obtain ⟨count, hcount⟩ : ∃ count, place.toNat = count + 1 := ⟨place.toNat - 1, by omega⟩
      rw [hcount]
      exact fun hzero => absurd hzero hdigits
  · exact fun hzero => absurd hzero hdigits

namespace Json

theorem isExponent_exponentChars {numeral : Numeral} (h : numeral.WellFormed) :
    IsExponent (Numeral.exponentChars numeral.exponent) numeral.exponent := by
  cases hexponent : numeral.exponent with
  | none => exact .absent
  | some parts =>
      obtain ⟨negative, digits⟩ := parts
      obtain ⟨hne, hdigits⟩ := h.exponent negative digits hexponent
      have hpresent : IsExponent ('e' :: ([Numeral.signChar negative] ++ digits))
          (some ([Numeral.signChar negative] == ['-'], digits)) :=
        .present (by decide) (by cases negative <;> decide) hne hdigits
      cases negative <;> exact hpresent

/-- A numeral without superfluous zeros is a number of JSON, and both denote the
same. -/
theorem isNumber_numeral (negative : Bool) {numeral : Numeral} (h : numeral.WellFormed)
    (hzero : numeral.whole.head? = some '0' → numeral.whole = ['0']) :
    IsNumber (minusChars negative ++ numeral.chars) (signed negative numeral.decimal.value) := by
  rw [Numeral.chars, List.append_assoc]
  exact .intro negative h hzero (isExponent_exponentChars h)

/-- The text of a finite number is a number of JSON with its value. Numbers of
JSON never start with a point or with two zeros, and these do not either. -/
theorem isNumber_finite (negative : Bool) (magnitude : Magnitude) :
    IsNumber (Number.finite negative magnitude).text.toList
      (Number.finite negative magnitude).written := by
  cases hzero : magnitude.isZero with
  | true =>
      have hwell : Numeral.WellFormed ⟨['0'], [], none⟩ :=
        ⟨by simp, areDigits_zeros 1, by simp [AreDigits], by simp⟩
      have hnumber := isNumber_numeral false hwell fun _ => rfl
      have hvalue : signed negative 0 =
          signed false (Numeral.decimal ⟨['0'], [], none⟩).value := by
        cases negative <;> simp [signed, Numeral.decimal, Decimal.value, Nat.ofDigitChars_cons]
      simp only [Number.text, Number.written, hzero, if_true, hvalue]
      exact hnumber
  | false =>
      have hdigits := Magnitude.shortest_digits_ne_zero hzero
      have hnumber := isNumber_numeral negative (Decimal.numeral_wellFormed hdigits)
        (Numeral.whole_placed _ (Decimal.significantDigits_ne_nil hdigits)
          (Decimal.head?_significantDigits hdigits))
      rw [Decimal.numeral_value hdigits] at hnumber
      simpa [Number.text, Number.written, hzero, minusChars, Decimal.text_eq_chars hdigits]
        using hnumber

theorem isNumber_int (value : Int) : IsNumber (toString value).toList value := by
  have hwell : Numeral.WellFormed ⟨Nat.toDigits 10 value.natAbs, [], none⟩ :=
    ⟨Nat.toDigits_ne_nil, areDigits_toDigits _, by simp [AreDigits], by simp⟩
  have hzero : (Nat.toDigits 10 value.natAbs).head? = some '0' →
      Nat.toDigits 10 value.natAbs = ['0'] := by
    intro hhead
    by_cases hnone : value.natAbs = 0
    · rw [hnone]
      rfl
    · exact absurd hhead (head?_toDigits hnone)
  have hnumber := isNumber_numeral (decide (value < 0)) hwell hzero
  have htext : minusChars (decide (value < 0)) ++
      Numeral.chars ⟨Nat.toDigits 10 value.natAbs, [], none⟩ = (toString value).toList := by
    cases value with
    | ofNat n =>
        simp [Numeral.chars, Numeral.fractionChars, Numeral.exponentChars, minusChars, toString,
          Int.repr]
    | negSucc n =>
        simp [Numeral.chars, Numeral.fractionChars, Numeral.exponentChars, minusChars, toString,
          Int.repr, Int.negSucc_lt_zero]
  have hvalue : signed (decide (value < 0))
      (Numeral.decimal ⟨Nat.toDigits 10 value.natAbs, [], none⟩).value = value := by
    have hmagnitude : (Numeral.decimal ⟨Nat.toDigits 10 value.natAbs, [], none⟩).value =
        ((value.natAbs : Int) : ℚ) := by
      simp [Numeral.decimal, Decimal.value, Numeral.exponentValue, Nat.ofDigitChars_ten_toDigits]
    rw [hmagnitude, signed]
    simp only [decide_eq_true_eq]
    split
    · rw [← Int.cast_neg]
      exact congrArg _ (by omega)
    · exact congrArg _ (by omega)
  rwa [htext, hvalue] at hnumber

/-! Strings. -/

/-- A character inside a quotation is one character of JSON, whether it is
escaped or stands for itself. -/
theorem isChar_quotedChar (c : Char) : IsChar (Value.quotedChar c) c := by
  unfold Value.quotedChar
  split
  case h_6 hquote hbackslash _ _ _ =>
    split
    · next hcontrol =>
      have hhex : ∀ n < 16, Number.digitValue? 16 (Nat.digitChar n) = some n := by decide
      have hvalues : Number.digitValues? 16
          ['0', '0', Nat.digitChar (c.toNat / 16), Nat.digitChar (c.toNat % 16)] =
          some [0, 0, c.toNat / 16, c.toNat % 16] := by
        have hhigh := hhex (c.toNat / 16) (by omega)
        have hlow := hhex (c.toNat % 16) (by omega)
        have hzero := hhex 0 (by decide)
        simp only [Nat.digitChar, if_true] at hzero
        simp [Number.digitValues?, hhigh, hlow, hzero]
      have hunit : Number.ofDigitValues 16 [0, 0, c.toNat / 16, c.toNat % 16] = c.toNat := by
        simp only [Number.ofDigitValues, List.foldl_cons, List.foldl_nil]
        omega
      have hunits : Utf16.unitsOf c = [c.toNat] := if_pos (by omega)
      have hspelled := AreUnits.cons rfl hvalues .nil
      rw [hunit, ← hunits] at hspelled
      exact .units hspelled
    · next hplain => exact .plain hquote hbackslash (by omega)
  all_goals exact .letter rfl

theorem isString_quoted (text : String) : IsString (Value.quoted text).toList text := by
  have hchars (chars : List Char) : AreChars (chars.flatMap Value.quotedChar) chars := by
    induction chars with
    | nil => exact .nil
    | cons c rest ih => exact .cons (isChar_quotedChar c) ih
  have htext : (Value.quoted text).toList =
      '"' :: (text.toList.flatMap Value.quotedChar ++ ['"']) := by
    simp [Value.quoted]
  rw [htext]
  exact .intro (hchars text.toList)

/-! Values. -/

theorem IsValue.denotes {text : List Char} {json : Json} (h : IsValue text json) :
    Denotes text json := by
  have hdenotes : Denotes ([] ++ (text ++ [])) json := .intro nofun h nofun
  simpa using hdenotes

/-- Parts with commas between them are a list of JSON. -/
theorem listed_intercalate {α : Type} {rule : List Char → α → Prop} {texts : List String}
    {parts : List α} (h : List.Forall₂ (fun text part => rule text.toList part) texts parts) :
    Listed rule (String.intercalate "," texts).toList parts := by
  induction h with
  | nil => exact .none nofun
  | cons hpart hrest ih =>
      cases hrest with
      | nil => exact .last hpart
      | cons _ _ =>
          rw [String.intercalate_cons_cons, String.toList_append, String.toList_append,
            List.append_assoc]
          exact .cons hpart ih (List.cons_ne_nil _ _)

end Json

namespace Value

mutual

/-- A quotation is a value of JSON without blanks around it, and what it denotes
is the image of the value. -/
theorem isValue_json (value : Value) : Json.IsValue value.json.toList value.image := by
  match value with
  | null | undefined => exact .null
  | boolean true => exact .yes
  | boolean false => exact .no
  | number (.finite negative magnitude) => exact .number (Json.isNumber_finite negative magnitude)
  | number .nan => exact .null
  | number (.infinity _) =>
      simp only [json, image, Number.isFinite, Bool.false_eq_true, if_false]
      exact .null
  | bigInt value => exact .number (Json.isNumber_int value)
  | string text => exact .string (Json.isString_quoted text)
  | date value => exact .string (Json.isString_quoted value.text)
  | buffer value => exact .string (Json.isString_quoted value.text)
  | regExp _ =>
      have hvalue : Json.IsValue ('\x7b' :: ([] ++ ['\x7d'])) (.object []) := .object (.none nofun)
      rw [json, image]
      exact hvalue
  | array items =>
      have hitems := Json.listed_intercalate (denotes_items items)
      rw [json, String.toList_append, String.toList_append]
      exact .array hitems
  | object ⟨entries⟩ =>
      have hentries := Json.listed_intercalate (isMember_entries entries)
      rw [json, String.toList_append, String.toList_append]
      exact .object hentries

theorem denotes_items (items : List Value) :
    List.Forall₂ (fun text item => Json.Denotes text.toList item) (itemsJson items)
      (itemImages items) := by
  match items with
  | [] => exact .nil
  | item :: rest => exact .cons (isValue_json item).denotes (denotes_items rest)

theorem isMember_entries (entries : List (String × Value)) :
    List.Forall₂ (fun text member => Json.IsMember text.toList member) (entriesJson entries)
      (entryImages entries) := by
  match entries with
  | [] => exact .nil
  | entry :: rest =>
      obtain ⟨key, value⟩ := entry
      have hvalue := (isValue_json value).denotes
      have hrest := isMember_entries rest
      by_cases hundefined : value = undefined
      · subst hundefined
        exact hrest
      · rw [entriesJson.eq_3 _ _ _ hundefined, entryImages.eq_3 _ _ _ hundefined]
        refine .cons ?_ hrest
        have hmember :
            Json.IsMember ([] ++ ((quoted key).toList ++ ([] ++ ':' :: value.json.toList)))
            (key, value.image) := .intro nofun (Json.isString_quoted key) nofun hvalue
        simpa using hmember

end

/-- What a finite number is written as rounds to its magnitude, with its sign. -/
theorem written_finite (negative : Bool) (magnitude : Magnitude) :
    ∃ value, (Number.finite negative magnitude).written = Json.signed negative value ∧
      magnitude.InInterval (value * Magnitude.unitsPerOne) := by
  refine ⟨_, rfl, ?_⟩
  cases hzero : magnitude.isZero with
  | true =>
      rw [Magnitude.eq_zero_of_isZero hzero, if_pos rfl, zero_mul]
      exact Magnitude.inInterval_units .zero
  | false => exact Magnitude.inInterval_shortest hzero

/-- The quotation of a value other than undefined is a JSON text. What it
denotes is the image of the value, and nothing else. The numbers in images are
integers, or they round to the numbers that they are written for. -/
theorem quotations_are_json :
    (∀ value : Value, value ≠ undefined → ∀ json,
      Json.Denotes value.quotation.toList json ↔ json = value.image) ∧
    ∀ negative magnitude, ∃ value,
      (Number.finite negative magnitude).written = Json.signed negative value ∧
        magnitude.InInterval (value * Magnitude.unitsPerOne) := by
  refine ⟨fun value hvalue json => ?_, written_finite⟩
  have hquotation : value.quotation = value.json := by
    cases value with
    | undefined => exact absurd rfl hvalue
    | _ => rfl
  rw [hquotation]
  have himage := (isValue_json value).denotes
  constructor
  · exact fun hjson => hjson.unique himage
  · rintro rfl
    exact himage

def nestedRecord : Value := .object ⟨[("a", .array [.undefined, .bigInt 3]), ("b", .undefined)]⟩

theorem quotations_are_json_nested :
    nestedRecord ≠ undefined ∧ ∀ json,
      Json.Denotes "\x7b\"a\":[null,3]\x7d".toList json ↔
        json = .object [("a", .array [.null, .number 3])] := by
  have hdefined : nestedRecord ≠ undefined := nofun
  exact ⟨hdefined, quotations_are_json.1 nestedRecord hdefined⟩

end Value

end ConfigNotation
