import ConfigNotation.Proofs.Json.Grammar

/-!
No JSON text denotes two values. A part of a text is told by its characters alone where it
cannot go on: blanks in front of a mark, and numbers in front of a blank, a comma, a closing
mark or the end.
-/

namespace ConfigNotation.Json

/-- A run of characters that a condition takes ends where the condition fails,
so two readings of one text cut off the same run. -/
theorem run_unique {condition : Char → Bool} {first second rest behind : List Char}
    (hfirst : ∀ c ∈ first, condition c = true) (hsecond : ∀ c ∈ second, condition c = true)
    (hrest : ∀ c ∈ rest.head?, condition c = false)
    (hbehind : ∀ c ∈ behind.head?, condition c = false)
    (heq : first ++ rest = second ++ behind) : first = second ∧ rest = behind := by
  have hsame : first = second := by
    rw [← takeWhile_append_stop hfirst hrest, heq, takeWhile_append_stop hsecond hbehind]
  subst hsame
  exact ⟨rfl, List.append_cancel_left heq⟩

/-- What may stand behind a value: a blank, a comma or a closing mark. -/
def Ends (rest : List Char) : Prop :=
  ∀ c ∈ rest.head?, isBlank c = true ∨ c ∈ [',', ']', '\x7d']

/-- What may stand behind a value and the blanks that follow it. -/
def Closes (rest : List Char) : Prop := ∀ c ∈ rest.head?, c ∈ [',', ']', '\x7d']

theorem Closes.not_isBlank {rest : List Char} (h : Closes rest) :
    ∀ c ∈ rest.head?, isBlank c = false := by
  intro c hc
  have hall : ∀ c ∈ [',', ']', '\x7d'], isBlank c = false := by decide
  exact hall c (h c hc)

theorem Closes.ends {rest blanks : List Char} (h : Closes rest) (hblanks : AreBlanks blanks) :
    Ends (blanks ++ rest) := by
  cases blanks with
  | nil => exact fun c hc => .inr (h c hc)
  | cons first others =>
      rintro _ ⟨⟩
      exact .inl (hblanks first List.mem_cons_self)

/-! Numbers. -/

theorem isDigit_ne {c mark : Char} (h : c.isDigit = true) (hmark : mark.isDigit = false) :
    c ≠ mark := by
  rintro rfl
  rw [h] at hmark
  cases hmark

theorem Ends.not_numeral {rest : List Char} (h : Ends rest) :
    ∀ c ∈ rest.head?, c.isDigit = false ∧ c ≠ '.' ∧ c ∉ ['e', 'E'] := by
  intro c hc
  have hblank : ∀ c ∈ [' ', '\t', '\n', '\r', ',', ']', '\x7d'],
      c.isDigit = false ∧ c ≠ '.' ∧ c ∉ ['e', 'E'] := by decide
  refine hblank c ?_
  rcases h c hc with hc | hc
  · simp only [isBlank, Bool.or_eq_true, beq_iff_eq] at hc
    simp only [List.mem_cons]
    tauto
  · simp only [List.mem_cons] at hc ⊢
    tauto

theorem minusChars_unique {negative other : Bool} {rest behind : List Char}
    (hrest : ∀ c ∈ rest.head?, c ≠ '-') (hbehind : ∀ c ∈ behind.head?, c ≠ '-')
    (heq : minusChars negative ++ rest = minusChars other ++ behind) :
    negative = other ∧ rest = behind := by
  cases negative <;> cases other
  · exact ⟨rfl, heq⟩
  · cases heq
    exact absurd rfl (hrest '-' rfl)
  · cases heq
    exact absurd rfl (hbehind '-' rfl)
  · cases heq
    exact ⟨rfl, rfl⟩

theorem fractionChars_unique {first second rest behind : List Char} (hfirst : AreDigits first)
    (hsecond : AreDigits second) (hrest : ∀ c ∈ rest.head?, c.isDigit = false ∧ c ≠ '.')
    (hbehind : ∀ c ∈ behind.head?, c.isDigit = false ∧ c ≠ '.')
    (heq : Numeral.fractionChars first ++ rest = Numeral.fractionChars second ++ behind) :
    first = second ∧ rest = behind := by
  unfold Numeral.fractionChars at heq
  split at heq <;> split at heq
  · next hempty hnone =>
    exact ⟨(List.isEmpty_iff.1 hempty).trans (List.isEmpty_iff.1 hnone).symm, heq⟩
  · subst heq
    exact absurd rfl (hrest '.' rfl).2
  · subst heq
    exact absurd rfl (hbehind '.' rfl).2
  · obtain ⟨-, heq⟩ := List.cons.inj heq
    exact run_unique hfirst hsecond (fun c hc => (hrest c hc).1) (fun c hc => (hbehind c hc).1) heq

theorem IsExponent.head_ne_digit {text rest : List Char} {exponent : Option (Bool × List Char)}
    (h : IsExponent text exponent) (hends : Ends rest) :
    ∀ c ∈ (text ++ rest).head?, c.isDigit = false ∧ c ≠ '.' := by
  cases h with
  | absent => exact fun c hc => ⟨(hends.not_numeral c hc).1, (hends.not_numeral c hc).2.1⟩
  | present hmark =>
      have hmarks : ∀ mark ∈ ['e', 'E'], mark.isDigit = false ∧ mark ≠ '.' := by decide
      rintro _ ⟨⟩
      exact hmarks _ hmark

/-- Two exponents at the start of one text are the same, provided that what
follows ends a value. -/
theorem IsExponent.unique {text other rest behind : List Char}
    {exponent second : Option (Bool × List Char)} (h : IsExponent text exponent)
    (hother : IsExponent other second) (hends : Ends rest) (hbehind : Ends behind)
    (heq : text ++ rest = other ++ behind) : exponent = second ∧ rest = behind := by
  have hsigns : ∀ sign ∈ [[], ['+'], ['-']], ∀ c ∈ sign, (!c.isDigit) = true := by decide
  have hstarts {digits after : List Char} (hne : digits ≠ []) (hdigits : AreDigits digits) :
      ∀ c ∈ (digits ++ after).head?, (!c.isDigit) = false := by
    obtain ⟨first, others, rfl⟩ := List.exists_cons_of_ne_nil hne
    rintro _ ⟨⟩
    rw [hdigits first List.mem_cons_self]
    rfl
  cases h with
  | absent =>
      cases hother with
      | absent => exact ⟨rfl, heq⟩
      | present hmark =>
          subst heq
          exact absurd hmark (hends.not_numeral _ rfl).2.2
  | present hmark hsign hne hdigits =>
      cases hother with
      | absent =>
          subst heq
          exact absurd hmark (hbehind.not_numeral _ rfl).2.2
      | present _ hsign' hne' hdigits' =>
          rw [List.cons_append, List.cons_append, List.append_assoc, List.append_assoc] at heq
          obtain ⟨-, heq⟩ := List.cons.inj heq
          obtain ⟨rfl, htails⟩ := run_unique (hsigns _ hsign) (hsigns _ hsign')
            (hstarts hne hdigits) (hstarts hne' hdigits') heq
          obtain ⟨rfl, rfl⟩ := run_unique hdigits hdigits'
            (fun c hc => (hends.not_numeral c hc).1) (fun c hc => (hbehind.not_numeral c hc).1)
            htails
          exact ⟨rfl, rfl⟩

/-- A number is found in one way only, up to a character that can end it. Its
value is determined with its end. -/
theorem IsNumber.unique {text other rest behind : List Char} {value second : ℚ}
    (h : IsNumber text value) (hother : IsNumber other second) (hends : Ends rest)
    (hbehind : Ends behind) (heq : text ++ rest = other ++ behind) :
    value = second ∧ rest = behind := by
  have hwhole {numeral : Numeral} (hwell : numeral.WellFormed) {after : List Char} :
      ∀ c ∈ (numeral.whole ++ after).head?, c ≠ '-' := by
    obtain ⟨first, others, hcons⟩ := List.exists_cons_of_ne_nil hwell.whole_ne_nil
    rw [hcons]
    rintro _ ⟨⟩
    refine isDigit_ne (hwell.whole first ?_) rfl
    rw [hcons]
    exact List.mem_cons_self
  have hbehindWhole {fraction after : List Char}
      (h : ∀ c ∈ after.head?, c.isDigit = false ∧ c ≠ '.') :
      ∀ c ∈ (Numeral.fractionChars fraction ++ after).head?, c.isDigit = false := by
    unfold Numeral.fractionChars
    split
    · exact fun c hc => (h c hc).1
    · rintro _ ⟨⟩
      rfl
  obtain @⟨negative, numeral, exponent, hwell, -, hexponent⟩ := h
  obtain @⟨negative', numeral', exponent', hwell', -, hexponent'⟩ := hother
  simp only [List.append_assoc] at heq
  have hafter := hexponent.head_ne_digit hends
  have hafter' := hexponent'.head_ne_digit hbehind
  obtain ⟨hnegative, heq⟩ := minusChars_unique (hwhole hwell) (hwhole hwell') heq
  obtain ⟨hwholes, heq⟩ := run_unique hwell.whole hwell'.whole (hbehindWhole hafter)
    (hbehindWhole hafter') heq
  obtain ⟨hfractions, heq⟩ := fractionChars_unique hwell.fraction hwell'.fraction hafter hafter' heq
  obtain ⟨hexponents, hrest⟩ := hexponent.unique hexponent' hends hbehind heq
  obtain ⟨whole, fraction, power⟩ := numeral
  obtain ⟨whole', fraction', power'⟩ := numeral'
  dsimp only at hwholes hfractions hexponents
  subst hnegative hwholes hfractions hexponents
  exact ⟨rfl, hrest⟩

/-! Strings. -/

/-- The first unit of two readings is the same, and so is what is left: units
are of a fixed width. -/
theorem AreUnits.unique_head {text other rest behind : List Char} {unit second : Nat}
    {units others : List Nat} (h : AreUnits text (unit :: units))
    (hother : AreUnits other (second :: others)) (heq : text ++ rest = other ++ behind) :
    unit = second ∧ ∃ tail tail', AreUnits tail units ∧ AreUnits tail' others ∧
      tail ++ rest = tail' ++ behind := by
  cases h with
  | cons hlength hvalues hrest =>
      cases hother with
      | cons hlength' hvalues' hrest' =>
          simp only [List.cons_append, List.append_assoc, List.cons.injEq, true_and] at heq
          obtain ⟨hdigits, htails⟩ := List.append_inj heq (hlength.trans hlength'.symm)
          subst hdigits
          obtain rfl := Option.some.inj (hvalues.symm.trans hvalues')
          exact ⟨rfl, _, _, hrest, hrest', htails⟩

/-- The units of a character tell it, as a surrogate is followed by the other
one. -/
theorem AreUnits.unique {text other rest behind : List Char} {c second : Char}
    (h : AreUnits text (Utf16.unitsOf c)) (hother : AreUnits other (Utf16.unitsOf second))
    (heq : text ++ rest = other ++ behind) : c = second ∧ rest = behind := by
  have hvalid := Utf16.toNat_valid c
  have hvalid' := Utf16.toNat_valid second
  have hnil {tail : List Char} (h : AreUnits tail []) : tail = [] := by cases h; rfl
  unfold Utf16.unitsOf at h hother
  split at h <;> split at hother
  · obtain ⟨hsame, tail, tail', htail, htail', heq⟩ := h.unique_head hother heq
    rw [hnil htail, hnil htail'] at heq
    exact ⟨Char.toNat_inj.1 hsame, heq⟩
  · obtain ⟨hsame, -⟩ := h.unique_head hother heq
    omega
  · obtain ⟨hsame, -⟩ := h.unique_head hother heq
    omega
  · obtain ⟨hhigh, _, _, hlow, hlow', heq⟩ := h.unique_head hother heq
    obtain ⟨hsame, tail, tail', htail, htail', heq⟩ := hlow.unique_head hlow' heq
    rw [hnil htail, hnil htail'] at heq
    exact ⟨Char.toNat_inj.1 (by omega), heq⟩

/-- What a backslash is followed by tells a letter from units. -/
theorem AreUnits.chars_eq {text : List Char} {c : Char} (h : AreUnits text (Utf16.unitsOf c)) :
    ∃ tail, text = '\\' :: 'u' :: tail := by
  have hunits : ∃ unit units, Utf16.unitsOf c = unit :: units := by
    unfold Utf16.unitsOf
    split <;> exact ⟨_, _, rfl⟩
  obtain ⟨unit, units, hunits⟩ := hunits
  rw [hunits] at h
  cases h with
  | cons => exact ⟨_, rfl⟩

theorem IsChar.chars_eq {text : List Char} {c : Char} (h : IsChar text c) :
    ∃ first tail, text = first :: tail ∧ first ≠ '"' := by
  cases h with
  | plain hquote => exact ⟨_, _, rfl, hquote⟩
  | letter => exact ⟨_, _, rfl, by decide⟩
  | units hunits =>
      obtain ⟨tail, rfl⟩ := hunits.chars_eq
      exact ⟨_, _, rfl, by decide⟩

/-- A character of a string is read in one way: by itself, by its letter, or by
one or two units. A pair of surrogates is never read as two characters. -/
theorem IsChar.unique {text other rest behind : List Char} {c second : Char} (h : IsChar text c)
    (hother : IsChar other second) (heq : text ++ rest = other ++ behind) :
    c = second ∧ rest = behind := by
  cases h with
  | plain _ hbackslash =>
      cases hother with
      | plain => exact List.cons.inj heq
      | letter =>
          cases heq
          exact absurd rfl hbackslash
      | units hunits =>
          obtain ⟨tail, rfl⟩ := hunits.chars_eq
          cases heq
          exact absurd rfl hbackslash
  | letter hmeaning =>
      cases hother with
      | plain _ hbackslash =>
          cases heq
          exact absurd rfl hbackslash
      | letter hmeaning' =>
          cases heq
          exact ⟨Option.some.inj (hmeaning.symm.trans hmeaning'), rfl⟩
      | units hunits =>
          obtain ⟨tail, rfl⟩ := hunits.chars_eq
          cases heq
          cases hmeaning
  | units hunits =>
      cases hother with
      | plain _ hbackslash =>
          obtain ⟨tail, rfl⟩ := hunits.chars_eq
          cases heq
          exact absurd rfl hbackslash
      | letter hmeaning =>
          obtain ⟨tail, rfl⟩ := hunits.chars_eq
          cases heq
          cases hmeaning
      | units hunits' => exact hunits.unique hunits' heq

theorem AreChars.unique {text other rest behind chars others : List Char} (h : AreChars text chars)
    (hother : AreChars other others) (heq : text ++ '"' :: rest = other ++ '"' :: behind) :
    chars = others ∧ rest = behind := by
  induction h generalizing other others with
  | nil =>
      cases hother with
      | nil => exact ⟨rfl, List.tail_eq_of_cons_eq heq⟩
      | cons hfirst =>
          obtain ⟨first, tail, rfl, hquote⟩ := hfirst.chars_eq
          cases heq
          exact absurd rfl hquote
  | cons hfirst hrest ih =>
      cases hother with
      | nil =>
          obtain ⟨first, tail, rfl, hquote⟩ := hfirst.chars_eq
          cases heq
          exact absurd rfl hquote
      | cons hfirst' hrest' =>
          rw [List.append_assoc, List.append_assoc] at heq
          obtain ⟨rfl, heq⟩ := hfirst.unique hfirst' heq
          obtain ⟨rfl, heq⟩ := ih hrest' heq
          exact ⟨rfl, heq⟩

/-- A string ends at its first quote that no backslash protects, so both
readings give the same text. -/
theorem IsString.unique {text other rest behind : List Char} {value second : String}
    (h : IsString text value) (hother : IsString other second)
    (heq : text ++ rest = other ++ behind) : value = second ∧ rest = behind := by
  obtain ⟨hchars⟩ := h
  obtain ⟨hchars'⟩ := hother
  simp only [List.cons_append, List.append_assoc, List.cons.injEq, true_and,
    List.nil_append] at heq
  obtain ⟨hsame, hrest⟩ := hchars.unique hchars' heq
  exact ⟨String.toList_inj.1 hsame, hrest⟩

/-! Values. -/

/-- The kinds of values that can be told by their first character. -/
inductive Kind where
  | null | yes | no | number | string | array | object

def kind : Json → Kind
  | null => .null
  | boolean true => .yes
  | boolean false => .no
  | number _ => .number
  | string _ => .string
  | array _ => .array
  | object _ => .object

def kindOf (c : Char) : Kind :=
  match c with
  | 'n' => .null
  | 't' => .yes
  | 'f' => .no
  | '"' => .string
  | '[' => .array
  | '\x7b' => .object
  | _ => .number

/-- A value starts with a character that tells its kind, and that is no blank
and no mark behind a value. -/
def Opens (text : List Char) (kind : Kind) : Prop :=
  ∃ c tail, text = c :: tail ∧ kindOf c = kind ∧ isBlank c = false ∧ c ∉ [',', ']', '\x7d']

theorem IsNumber.opens {text : List Char} {value : ℚ} (h : IsNumber text value) :
    Opens text .number := by
  have hfirst : ∃ c tail, text = c :: tail ∧
      c ∈ ['-', '0', '1', '2', '3', '4', '5', '6', '7', '8', '9'] := by
    obtain @⟨negative, numeral, exponent, hwell, -, -⟩ := h
    cases negative with
    | true => exact ⟨'-', _, rfl, List.mem_cons_self⟩
    | false =>
        obtain ⟨first, others, hcons⟩ := List.exists_cons_of_ne_nil hwell.whole_ne_nil
        have hdigit := hwell.whole first (by rw [hcons]; exact List.mem_cons_self)
        rw [hcons]
        exact ⟨first, _, rfl, List.mem_cons_of_mem _ (isDigit_cases hdigit)⟩
  have hall : ∀ c ∈ ['-', '0', '1', '2', '3', '4', '5', '6', '7', '8', '9'],
      kindOf c = .number ∧ isBlank c = false ∧ c ∉ [',', ']', '\x7d'] := by
    simp [kindOf, isBlank]
  obtain ⟨c, tail, rfl, hc⟩ := hfirst
  exact ⟨c, tail, rfl, hall c hc⟩

/-- The first character of a value tells its kind. No kind shares its characters
with another one. -/
theorem IsValue.opens {text : List Char} {json : Json} (h : IsValue text json) :
    Opens text json.kind := by
  cases h with
  | null => exact ⟨'n', _, rfl, rfl, by decide⟩
  | yes => exact ⟨'t', _, rfl, rfl, by decide⟩
  | no => exact ⟨'f', _, rfl, rfl, by decide⟩
  | number hnumber => exact hnumber.opens
  | string hstring =>
      obtain ⟨-⟩ := hstring
      exact ⟨'"', _, rfl, rfl, by decide⟩
  | array => exact ⟨'[', _, rfl, rfl, by decide⟩
  | object => exact ⟨'\x7b', _, rfl, rfl, by decide⟩

/-- Blanks end where something else starts. -/
theorem blanks_unique {before other rest behind : List Char} (hbefore : AreBlanks before)
    (hother : AreBlanks other) (hrest : ∀ c ∈ rest.head?, isBlank c = false)
    (hbehind : ∀ c ∈ behind.head?, isBlank c = false) (heq : before ++ rest = other ++ behind) :
    rest = behind :=
  (run_unique hbefore hother hrest hbehind heq).2

theorem Opens.head_not_blank {text : List Char} {kind : Kind} (h : Opens text kind)
    (rest : List Char) : ∀ c ∈ (text ++ rest).head?, isBlank c = false := by
  obtain ⟨c, tail, rfl, -, hblank, -⟩ := h
  rintro _ ⟨⟩
  exact hblank

/-- A text that does not start with a mark behind a value, blanks left aside. -/
def Starts (text : List Char) : Prop :=
  ∃ blanks c tail, text = blanks ++ c :: tail ∧ AreBlanks blanks ∧ isBlank c = false ∧
    c ∉ [',', ']', '\x7d']

/-- The end of what stands between brackets. -/
def Shuts (rest : List Char) : Prop := ∀ c ∈ rest.head?, c ∈ [']', '\x7d']

theorem Shuts.closes {rest : List Char} (h : Shuts rest) : Closes rest :=
  fun c hc => List.mem_cons_of_mem _ (h c hc)

/-- Blanks in front of a closing mark are no parts. -/
theorem Starts.ne_blanks {text behind blanks rest : List Char} (h : Starts text)
    (hblanks : AreBlanks blanks) (hrest : Shuts rest) : text ++ behind ≠ blanks ++ rest := by
  intro heq
  obtain ⟨before, c, tail, rfl, hbefore, hblank, hmark⟩ := h
  rw [List.append_assoc] at heq
  have hfirst : ∀ d ∈ (c :: tail ++ behind).head?, isBlank d = false := by
    rintro _ ⟨⟩
    exact hblank
  have hsame := blanks_unique hbefore hblanks hfirst hrest.closes.not_isBlank heq
  exact hmark (hrest.closes c (by rw [← hsame]; rfl))

/-- A part is found without what stands behind it. -/
def FoundBy {α : Type} (rule : List Char → α → Prop) (part : α) : Prop :=
  ∀ text other second rest behind, rule text part → rule other second → Closes rest →
    Closes behind → text ++ rest = other ++ behind → part = second ∧ rest = behind

/-- Two lists at the start of one text have the same parts, if each part is
found without what follows it. The induction goes over the parts of the first
list. -/
theorem Listed.unique {α : Type} {rule : List Char → α → Prop} {text other rest behind : List Char}
    {parts others : List α} (h : Listed rule text parts) (hother : Listed rule other others)
    (hstarts : ∀ text part, rule text part → Starts text)
    (hfound : ∀ part ∈ parts, FoundBy rule part) (hrest : Shuts rest) (hbehind : Shuts behind)
    (heq : text ++ rest = other ++ behind) : parts = others ∧ rest = behind := by
  have hcomma (after : List Char) : Closes (',' :: after) := by
    rintro _ ⟨⟩
    decide
  have hmark {after : List Char} (h : Shuts after) {tail : List Char} : after ≠ ',' :: tail := by
    rintro rfl
    exact absurd (h ',' rfl) (by decide)
  induction h generalizing other others with
  | none hblanks =>
      cases hother with
      | none hblanks' =>
          exact ⟨rfl, blanks_unique hblanks hblanks' hrest.closes.not_isBlank
            hbehind.closes.not_isBlank heq⟩
      | last hpart => exact absurd heq.symm ((hstarts _ _ hpart).ne_blanks hblanks hrest)
      | cons hpart =>
          rw [List.append_assoc] at heq
          exact absurd heq.symm ((hstarts _ _ hpart).ne_blanks hblanks hrest)
  | last hpart =>
      have hfirst := hfound _ List.mem_cons_self
      cases hother with
      | none hblanks => exact absurd heq ((hstarts _ _ hpart).ne_blanks hblanks hbehind)
      | last hpart' =>
          obtain ⟨rfl, hsame⟩ := hfirst _ _ _ _ _ hpart hpart' hrest.closes hbehind.closes heq
          exact ⟨rfl, hsame⟩
      | cons hpart' =>
          rw [List.append_assoc] at heq
          exact absurd (hfirst _ _ _ _ _ hpart hpart' hrest.closes (hcomma _) heq).2 (hmark hrest)
  | cons hpart _ _ ih =>
      obtain ⟨hfirst, hothers⟩ := List.forall_mem_cons.1 hfound
      rw [List.append_assoc] at heq
      cases hother with
      | none hblanks => exact absurd heq ((hstarts _ _ hpart).ne_blanks hblanks hbehind)
      | last hpart' =>
          exact absurd (hfirst _ _ _ _ _ hpart hpart' (hcomma _) hbehind.closes heq).2.symm
            (hmark hbehind)
      | cons hpart' hrest' =>
          rw [List.append_assoc] at heq
          obtain ⟨rfl, hsame⟩ := hfirst _ _ _ _ _ hpart hpart' (hcomma _) (hcomma _) heq
          obtain ⟨rfl, hsame⟩ := ih hrest' hothers (List.tail_eq_of_cons_eq hsame)
          exact ⟨rfl, hsame⟩

theorem Denotes.starts {text : List Char} {json : Json} (h : Denotes text json) : Starts text := by
  obtain ⟨hbefore, hvalue, -⟩ := h
  obtain ⟨c, tail, rfl, -, hblank, hmark⟩ := hvalue.opens
  exact ⟨_, c, _, rfl, hbefore, hblank, hmark⟩

theorem IsMember.starts {text : List Char} {member : String × Json} (h : IsMember text member) :
    Starts text := by
  obtain ⟨hbefore, ⟨-⟩, -, -⟩ := h
  exact ⟨_, '"', _, rfl, hbefore, by decide, by decide⟩

/-- A value is found without what stands behind it. Behind a number this has
to end it. -/
def IsFound (json : Json) : Prop :=
  ∀ text other second rest behind, IsValue text json → IsValue other second → Ends rest →
    Ends behind → text ++ rest = other ++ behind → json = second ∧ rest = behind

theorem IsFound.denotes {json : Json} (h : json.IsFound) : FoundBy Denotes json := by
  rintro _ _ second rest behind ⟨hbefore, hvalue, hafter⟩ ⟨hbefore', hvalue', hafter'⟩ hrest
    hbehind heq
  simp only [List.append_assoc] at heq
  have hvalues := blanks_unique hbefore hbefore' (hvalue.opens.head_not_blank _)
    (hvalue'.opens.head_not_blank _) heq
  obtain ⟨hsame, htails⟩ :=
    h _ _ _ _ _ hvalue hvalue' (hrest.ends hafter) (hbehind.ends hafter') hvalues
  exact ⟨hsame, blanks_unique hafter hafter' hrest.not_isBlank hbehind.not_isBlank htails⟩

theorem IsFound.member {json : Json} (h : json.IsFound) (key : String) :
    FoundBy IsMember (key, json) := by
  rintro _ _ _ rest behind ⟨hbefore, hkey, hafter, hvalue⟩ ⟨hbefore', hkey', hafter', hvalue'⟩
    hrest hbehind heq
  have hquote {name : List Char} {key : String} (h : IsString name key) (tail : List Char) :
      ∀ c ∈ (name ++ tail).head?, isBlank c = false := by
    obtain ⟨-⟩ := h
    rintro _ ⟨⟩
    rfl
  have hcolon (tail : List Char) : ∀ c ∈ (':' :: tail).head?, isBlank c = false := by
    rintro _ ⟨⟩
    rfl
  simp only [List.append_assoc, List.cons_append] at heq
  have hnames := blanks_unique hbefore hbefore' (hquote hkey _) (hquote hkey' _) heq
  obtain ⟨rfl, hmarks⟩ := hkey.unique hkey' hnames
  have hvalues := blanks_unique hafter hafter' (hcolon _) (hcolon _) hmarks
  obtain ⟨rfl, hsame⟩ :=
    h.denotes _ _ _ _ _ hvalue hvalue' hrest hbehind (List.tail_eq_of_cons_eq hvalues)
  exact ⟨rfl, hsame⟩

/-- Two values at the start of one text are of one kind, since their first
characters agree. -/
theorem IsValue.kind_eq {text other rest behind : List Char} {json second : Json}
    (h : IsValue text json) (hother : IsValue other second)
    (heq : text ++ rest = other ++ behind) : json.kind = second.kind := by
  obtain ⟨c, tail, hc, hkind, -⟩ := h.opens
  obtain ⟨c', tail', hc', hkind', -⟩ := hother.opens
  rw [hc, hc'] at heq
  obtain ⟨rfl, -⟩ := List.cons.inj heq
  exact hkind.symm.trans hkind'

theorem isFound_null : null.IsFound := by
  intro text other second rest behind h hother _ _ heq
  have hkind := h.kind_eq hother heq
  cases h
  cases hother with
  | null => exact ⟨rfl, List.append_cancel_left heq⟩
  | _ => cases hkind

theorem isFound_boolean (value : Bool) : (boolean value).IsFound := by
  intro text other second rest behind h hother _ _ heq
  have hkind := h.kind_eq hother heq
  cases h with
  | yes =>
      cases hother with
      | yes => exact ⟨rfl, List.append_cancel_left heq⟩
      | _ => cases hkind
  | no =>
      cases hother with
      | no => exact ⟨rfl, List.append_cancel_left heq⟩
      | _ => cases hkind

theorem isFound_number (value : ℚ) : (number value).IsFound := by
  intro text other second rest behind h hother hrest hbehind heq
  have hkind := h.kind_eq hother heq
  cases h with | number hnumber =>
  cases hother with
  | number hnumber' =>
      obtain ⟨rfl, hsame⟩ := hnumber.unique hnumber' hrest hbehind heq
      exact ⟨rfl, hsame⟩
  | _ => cases hkind

theorem isFound_string (text : String) : (string text).IsFound := by
  intro text other second rest behind h hother _ _ heq
  have hkind := h.kind_eq hother heq
  cases h with | string hstring =>
  cases hother with
  | string hstring' =>
      obtain ⟨rfl, hsame⟩ := hstring.unique hstring' heq
      exact ⟨rfl, hsame⟩
  | _ => cases hkind

theorem shuts_cons {c : Char} (hc : c ∈ [']', '\x7d']) (after : List Char) :
    Shuts (c :: after) := by
  rintro _ ⟨⟩
  exact hc

/-- The elements of an array are found one by one, each up to the comma or
bracket behind it. -/
theorem isFound_array {items : List Json} (hfound : ∀ item ∈ items, item.IsFound) :
    (array items).IsFound := by
  intro text other second rest behind h hother _ _ heq
  have hkind := h.kind_eq hother heq
  cases h with | array hitems =>
  cases hother with
  | array hitems' =>
      simp only [List.cons_append, List.append_assoc, List.cons.injEq, true_and] at heq
      obtain ⟨rfl, hsame⟩ := hitems.unique hitems' (fun _ _ => Denotes.starts)
        (fun item hmem => (hfound item hmem).denotes) (shuts_cons (by decide) _)
        (shuts_cons (by decide) _) heq
      exact ⟨rfl, List.tail_eq_of_cons_eq hsame⟩
  | _ => cases hkind

/-- The members of an object are found one by one: a key is a string, and its
value is found by hypothesis. -/
theorem isFound_object {members : List (String × Json)}
    (hfound : ∀ member ∈ members, member.2.IsFound) : (object members).IsFound := by
  intro text other second rest behind h hother _ _ heq
  have hkind := h.kind_eq hother heq
  cases h with | object hmembers =>
  cases hother with
  | object hmembers' =>
      simp only [List.cons_append, List.append_assoc, List.cons.injEq, true_and] at heq
      obtain ⟨rfl, hsame⟩ := hmembers.unique hmembers' (fun _ _ => IsMember.starts)
        (fun member hmem => (hfound member hmem).member member.1) (shuts_cons (by decide) _)
        (shuts_cons (by decide) _) heq
      exact ⟨rfl, List.tail_eq_of_cons_eq hsame⟩
  | _ => cases hkind

/-- Every value is found without what stands behind it, by induction over the
value. So a text denotes at most one value. -/
theorem isFound (json : Json) : json.IsFound := by
  match json with
  | null => exact isFound_null
  | boolean value => exact isFound_boolean value
  | number value => exact isFound_number value
  | string text => exact isFound_string text
  | array items => exact isFound_array fun item hmem => isFound item
  | object members => exact isFound_object fun member hmem => isFound member.2
termination_by sizeOf json
decreasing_by
  · have hsmaller := List.sizeOf_lt_of_mem hmem
    simp only [array.sizeOf_spec]
    omega
  · have hsmaller := List.sizeOf_lt_of_mem hmem
    obtain ⟨key, json⟩ := member
    simp only [object.sizeOf_spec, Prod.mk.sizeOf_spec] at hsmaller ⊢
    omega

/-- A text denotes at most one value. -/
theorem Denotes.unique {text : List Char} {json second : Json} (h : Denotes text json)
    (hother : Denotes text second) : json = second :=
  ((isFound json).denotes _ _ _ [] [] h hother nofun nofun rfl).1

end ConfigNotation.Json
