import ConfigNotation.Proofs.Token.Match

/-!
The rule by which one match is chosen at a place of a text: no pattern covers more, and
those that are listed earlier cover less. Every match covers part of the text, so that
nothing is matched only where no pattern fits.
-/

namespace ConfigNotation.Pattern

/-- Every match of a pattern covers a part of the text, which is not empty. -/
def CoversSome (length? : List Char → Option Nat) : Prop :=
  ∀ text size, length? text = some size → 0 < size ∧ size ≤ text.length

theorem takeWhile_length_le (condition : Char → Bool) (text : List Char) :
    (text.takeWhile condition).length ≤ text.length :=
  (List.takeWhile_prefix condition).length_le

theorem coversSome_fixed {word : List Char} (h : word ≠ []) : CoversSome (fixed? word) := by
  intro text size hsize
  rw [fixed?, Option.ite_none_right_eq_some] at hsize
  obtain ⟨hstarts, hsize⟩ := hsize
  cases hsize
  exact ⟨List.length_pos_iff.2 h, (List.isPrefixOf_iff_prefix.1 hstarts).length_le⟩

theorem coversSome_word {word : List Char} (h : word ≠ []) (previous : Option Char) :
    CoversSome (word? word previous) := by
  intro text size hsize
  rw [word?, Option.ite_none_right_eq_some] at hsize
  obtain ⟨hstarts, hsize⟩ := hsize
  cases hsize
  simp only [Bool.and_eq_true] at hstarts
  exact ⟨List.length_pos_iff.2 h, (List.isPrefixOf_iff_prefix.1 hstarts.1.1).length_le⟩

/-- A choice covers some of the text if both of its branches do. -/
theorem CoversSome.orElse {first second : List Char → Option Nat} (hfirst : CoversSome first)
    (hsecond : CoversSome second) :
    CoversSome fun text => first text <|> second text := by
  intro text size hsize
  dsimp only at hsize
  cases hmatch : first text with
  | some found => exact hfirst text size (hmatch.trans (by simpa [hmatch] using hsize))
  | none => exact hsecond text size (by simpa [hmatch] using hsize)

/-- A pattern behind one more character. -/
theorem CoversSome.behind {length? : List Char → Option Nat} (h : CoversSome length?)
    (c : Char) {rest : List Char} {size : Nat} (hsize : (length? rest).map (· + 1) = some size) :
    0 < size ∧ size ≤ (c :: rest).length := by
  obtain ⟨inner, hinner, rfl⟩ := Option.map_eq_some_iff.1 hsize
  have hrest := h rest inner hinner
  rw [List.length_cons]
  omega

theorem CoversSome.signed {length? : List Char → Option Nat} (h : CoversSome length?) :
    CoversSome (signed? length?) := by
  intro text size hsize
  unfold signed? at hsize
  split at hsize
  · exact h.behind '-' hsize
  · exact h text size hsize

theorem coversSome_radixInteger : CoversSome radixInteger? := by
  have hdigits {condition : Char → Bool} {zero mark : Char} {rest : List Char} {size : Nat}
      (h : (if 0 < (rest.takeWhile condition).length then
        some ((rest.takeWhile condition).length + 2) else none) = some size) :
      0 < size ∧ size ≤ (zero :: mark :: rest).length := by
    rw [Option.ite_none_right_eq_some] at h
    obtain ⟨_, h⟩ := h
    cases h
    have hrest := takeWhile_length_le condition rest
    simp only [List.length_cons]
    omega
  intro text size hsize
  unfold radixInteger? at hsize
  split at hsize
  · exact hdigits hsize
  · exact hdigits hsize
  · exact hdigits hsize
  · cases hsize

theorem decimalRun_length_le (text : List Char) : (decimalRun text).length ≤ text.length :=
  takeWhile_length_le isDecimalChar text

theorem fractionSize_le (text : List Char) : fractionSize text ≤ text.length := by
  unfold fractionSize
  split
  · next rest =>
    have hrest := decimalRun_length_le rest
    rw [List.length_cons]
    split <;> omega
  · exact Nat.zero_le _

theorem exponentSize_le (text : List Char) : exponentSize text ≤ text.length := by
  unfold exponentSize
  split
  · next rest =>
    dsimp only
    generalize (if rest.head? == some '+' || rest.head? == some '-' then 1 else 0) = sign
    split
    · exact Nat.zero_le _
    · next hdigits =>
      have hrest := decimalRun_length_le (rest.drop sign)
      have hsome := List.length_pos_iff.2 hdigits
      rw [List.length_drop] at hrest
      rw [List.length_cons]
      omega
  · exact Nat.zero_le _

theorem coversSome_decimal : CoversSome decimal? := by
  intro text size hsize
  unfold decimal? at hsize
  rw [Option.ite_none_right_eq_some] at hsize
  obtain ⟨hdigit, hsize⟩ := hsize
  cases hsize
  have hwhole := decimalRun_length_le text
  have hfraction := fractionSize_le (text.drop (decimalRun text).length)
  generalize hsize : (decimalRun text).length +
    fractionSize (text.drop (decimalRun text).length) = size at hdigit ⊢
  have hexponent := exponentSize_le (text.drop size)
  have hsome : 0 < size := by
    apply Nat.pos_of_ne_zero
    rintro rfl
    cases hdigit
  rw [List.length_drop] at hfraction hexponent
  omega

theorem coversSome_number : CoversSome number? :=
  .signed (coversSome_radixInteger.orElse ((coversSome_fixed (by decide)).orElse
    ((coversSome_fixed (by decide)).orElse coversSome_decimal)))

/-- A character that stands behind a part of a text. -/
theorem lt_length_of_head? {text : List Char} {size : Nat} {c : Char}
    (h : (text.drop size).head? = some c) :
    size < text.length := by
  apply Nat.lt_of_not_le
  intro hlength
  rw [List.drop_of_length_le hlength] at h
  cases h

theorem coversSome_bigInt : CoversSome bigInt? := by
  apply CoversSome.signed
  intro text size hsize
  obtain ⟨digits, hdigits, hsize⟩ := Option.bind_eq_some_iff.1 hsize
  rw [Option.ite_none_right_eq_some] at hsize
  obtain ⟨hmark, hsize⟩ := hsize
  cases hsize
  exact ⟨Nat.succ_pos _, lt_length_of_head? (eq_of_beq hmark)⟩

theorem coversSome_ident : CoversSome ident? := by
  intro text size hsize
  cases text with
  | nil => cases hsize
  | cons c rest =>
      rw [ident?, Option.ite_none_right_eq_some] at hsize
      obtain ⟨_, hsize⟩ := hsize
      cases hsize
      have hrest := takeWhile_length_le isWordChar rest
      rw [List.length_cons]
      omega

theorem coversSome_assocKey : CoversSome assocKey? := by
  intro text size hsize
  unfold assocKey? at hsize
  split at hsize
  · exact coversSome_ident.behind '@' hsize
  · cases hsize

theorem pathTail_le (index : Bool) (text : List Char) : pathTail index text ≤ text.length := by
  fun_induction pathTail index text with
  | case1 => exact Nat.zero_le _
  | case2 index c rest _ ih => simpa using ih
  | case3 index c rest _ _ ih => simpa using ih
  | case4 => exact Nat.zero_le _
  | case5 index c rest _ _ ih => simpa using ih
  | case6 => exact Nat.zero_le _

theorem coversSome_path : CoversSome path? := by
  intro text size hsize
  cases text with
  | nil => cases hsize
  | cons c rest =>
      rw [path?, Option.ite_none_right_eq_some] at hsize
      obtain ⟨_, hsize⟩ := hsize
      cases hsize
      have hrest := pathTail_le false rest
      rw [List.length_cons]
      omega

theorem coversSome_plainQuoted : CoversSome plainQuoted? := by
  intro text size hsize
  unfold plainQuoted? at hsize
  split at hsize
  · next body =>
    dsimp only at hsize
    rw [Option.ite_none_right_eq_some] at hsize
    obtain ⟨hclosed, hsize⟩ := hsize
    cases hsize
    have hinner := lt_length_of_head? (eq_of_beq hclosed)
    rw [List.length_cons]
    omega
  · cases hsize

theorem startsWithAnyCase_length_le {word text : List Char}
    (h : startsWithAnyCase word text = true) :
    word.length ≤ text.length := by
  have hlength := congrArg List.length (eq_of_beq h)
  rw [List.length_map, List.length_take] at hlength
  omega

theorem coversSome_date : CoversSome date? := by
  intro text size hsize
  obtain ⟨quoted, hquoted, hsize⟩ := Option.bind_eq_some_iff.1 hsize
  rw [Option.ite_none_right_eq_some] at hsize
  obtain ⟨hending, hsize⟩ := hsize
  cases hsize
  have hinside := coversSome_plainQuoted text quoted hquoted
  have hlength := startsWithAnyCase_length_le hending
  rw [List.length_drop, show ".date".toList.length = 5 from rfl] at hlength
  omega

theorem coversSome_file : CoversSome file? := by
  intro text size hsize
  obtain ⟨quoted, hquoted, hsize⟩ := Option.bind_eq_some_iff.1 hsize
  have hinside := coversSome_plainQuoted text quoted hquoted
  split at hsize
  · next rest hrest =>
    obtain ⟨ending, hfind, rfl⟩ := Option.map_eq_some_iff.1 hsize
    have hending : startsWithAnyCase ending rest = true := by simpa using List.find?_some hfind
    have hlength := startsWithAnyCase_length_le hending
    have hbehind := congrArg List.length hrest
    rw [List.length_drop, List.length_cons] at hbehind
    omega
  · cases hsize

theorem coversSome_stringRest : CoversSome stringRest? := by
  intro text size hsize
  fun_induction stringRest? text generalizing size with
  | case1 => cases hsize
  | case2 rest => cases hsize; simp
  | case3 => cases hsize
  | case4 => cases hsize
  | case5 c rest _ ih =>
      obtain ⟨inner, hinner, rfl⟩ := Option.map_eq_some_iff.1 hsize
      have hrest := ih inner hinner
      simp only [List.length_cons]
      omega
  | case6 c rest _ _ _ ih =>
      obtain ⟨inner, hinner, rfl⟩ := Option.map_eq_some_iff.1 hsize
      have hrest := ih inner hinner
      rw [List.length_cons]
      omega

theorem coversSome_string : CoversSome string? := by
  intro text size hsize
  unfold string? at hsize
  split at hsize
  · exact coversSome_stringRest.behind '"' hsize
  · cases hsize

theorem coversSome_regExpRest : CoversSome regExpRest? := by
  intro text size hsize
  fun_induction regExpRest? text generalizing size with
  | case1 => cases hsize
  | case2 rest => cases hsize; simp
  | case3 => cases hsize
  | case4 => cases hsize
  | case5 c rest _ ih =>
      obtain ⟨inner, hinner, rfl⟩ := Option.map_eq_some_iff.1 hsize
      have hrest := ih inner hinner
      simp only [List.length_cons]
      omega
  | case6 => cases hsize
  | case7 c rest _ _ _ _ ih =>
      obtain ⟨inner, hinner, rfl⟩ := Option.map_eq_some_iff.1 hsize
      have hrest := ih inner hinner
      rw [List.length_cons]
      omega

theorem coversSome_regExp : CoversSome regExp? := by
  intro text size hsize
  unfold regExp? at hsize
  split at hsize
  · cases hsize
  · next rest _ =>
    obtain ⟨inner, hinner, rfl⟩ := Option.map_eq_some_iff.1 hsize
    have hbody := coversSome_regExpRest rest inner hinner
    have hflags := takeWhile_length_le isRegExpFlag (rest.drop inner)
    rw [List.length_drop] at hflags
    rw [List.length_cons]
    omega
  · cases hsize

/-- No pattern of the list matches the empty text, so that every step of the
lexer goes on, and none covers more than there is. -/
theorem coversSome_of_mem {pattern : Pattern} (h : pattern ∈ all) (previous : Option Char) :
    CoversSome (pattern.length? previous) := by
  have hword (word : String) (hsome : word.toList ≠ []) :
      CoversSome (word? word.toList previous) := coversSome_word hsome previous
  have hmark (word : String) (hsome : word.toList ≠ []) : CoversSome (fixed? word.toList) :=
    coversSome_fixed hsome
  revert pattern
  rw [all]
  simp only [List.forall_mem_cons]
  refine ⟨coversSome_date, coversSome_file, coversSome_string, coversSome_regExp,
    coversSome_number, coversSome_bigInt, ?_⟩
  and_intros
  all_goals first
    | exact hword _ (by decide)
    | exact hmark _ (by decide)
    | exact coversSome_assocKey
    | exact coversSome_path
    | exact coversSome_ident
    | exact fun _ h => absurd h List.not_mem_nil

/-- The match that is chosen at a place: that of a pattern which covers no less
than the others, and more than those that are listed earlier. -/
def IsChosen (previous : Option Char) (text : List Char) (kind : TokenKind) (size : Nat) :
    Prop :=
  ∃ before pattern after, all = before ++ pattern :: after ∧ pattern.kind = kind ∧
    pattern.length? previous text = some size ∧
    (∀ other ∈ before, ∀ n, other.length? previous text = some n → n < size) ∧
    ∀ other ∈ after, ∀ n, other.length? previous text = some n → n ≤ size

section

variable {previous : Option Char} {text : List Char}

/-- Nothing is chosen exactly where no pattern matches at all: preferring longer
matches loses none. -/
theorem longestMatch_eq_none_iff :
    longestMatch previous text = none ↔ ∀ pattern ∈ all, pattern.length? previous text = none := by
  constructor
  · intro h
    rcases foldl_prefer_first all none with ⟨_, hall⟩ | ⟨_, _, _, _, _, _, _, _, _, hfound⟩
    · intro pattern hpattern
      cases hlength : pattern.length? previous text with
      | none => rfl
      | some size =>
          have hsome := (coversSome_of_mem hpattern previous text size hlength).1
          have hnone : size ≤ 0 := hall pattern hpattern size hlength
          omega
    · rw [← longestMatch, h] at hfound
      cases hfound
  · intro h
    rcases foldl_prefer_first all none with ⟨hnone, _⟩ | ⟨_, pattern, _, _, hsplit, hlength, _⟩
    · exact hnone
    · rw [h pattern (by rw [hsplit]; simp)] at hlength
      cases hlength

/-- The match that the fold over the patterns keeps covers most, and comes first
among those that cover as much. -/
theorem isChosen_of_longestMatch {kind : TokenKind} {size : Nat}
    (h : longestMatch previous text = some (kind, size)) :
    IsChosen previous text kind size := by
  rcases foldl_prefer_first all none with ⟨hnone, _⟩ |
    ⟨before, pattern, after, found, hsplit, hlength, _, hbefore, hafter, hfound⟩
  · rw [← longestMatch, h] at hnone
    cases hnone
  · rw [← longestMatch, h] at hfound
    cases hfound
    exact ⟨before, pattern, after, hsplit, rfl, hlength, hbefore, hafter⟩

theorem IsChosen.le {kind : TokenKind} {size : Nat} (h : IsChosen previous text kind size) :
    ∀ pattern ∈ all, ∀ n, pattern.length? previous text = some n → n ≤ size := by
  obtain ⟨before, pattern, after, hsplit, _, hlength, hbefore, hafter⟩ := h
  rw [hsplit]
  exact le_of_chosen hlength hbefore hafter

theorem IsChosen.coversSome {kind : TokenKind} {size : Nat}
    (h : IsChosen previous text kind size) :
    0 < size ∧ size ≤ text.length := by
  obtain ⟨before, pattern, after, hsplit, _, hlength, _⟩ := h
  exact coversSome_of_mem (by rw [hsplit]; simp) previous text size hlength

/-- The rule leaves no choice: two matches at a place are of the same pattern. -/
theorem IsChosen.unique {kind other : TokenKind} {size more : Nat}
    (h : IsChosen previous text kind size) (hother : IsChosen previous text other more) :
    kind = other ∧ size = more := by
  have hsize : size = more := by
    obtain ⟨_, first, _, hfirst, _, hlength, _⟩ := id h
    obtain ⟨_, second, _, hsecond, _, hmore, _⟩ := id hother
    exact Nat.le_antisymm (hother.le first (by rw [hfirst]; simp) size hlength)
      (h.le second (by rw [hsecond]; simp) more hmore)
  subst hsize
  refine ⟨?_, rfl⟩
  obtain ⟨before, first, after, hsplit, rfl, hlength, hbefore, _⟩ := h
  obtain ⟨otherBefore, second, otherAfter, hotherSplit, rfl, hmore, hotherBefore, _⟩ := hother
  -- The list is split in two ways. A pattern that is chosen stands in no first part.
  rcases List.append_eq_append_iff.1 (hsplit.symm.trans hotherSplit) with
    ⟨between, rfl, hrest⟩ | ⟨between, rfl, hrest⟩
  · cases between with
    | nil => rw [(List.cons.inj hrest).1]
    | cons next between =>
        rw [(List.cons.inj hrest).1] at hlength
        exact absurd (hotherBefore next (by simp) size hlength) (Nat.lt_irrefl size)
  · cases between with
    | nil => rw [(List.cons.inj hrest).1]
    | cons next between =>
        rw [(List.cons.inj hrest).1] at hmore
        exact absurd (hbefore next (by simp) size hmore) (Nat.lt_irrefl size)

/-- The fold finds exactly the chosen match. It exists once and only once, so
the rule of the longest match with its ties determines the tokens. -/
theorem longestMatch_eq_some_iff {kind : TokenKind} {size : Nat} :
    longestMatch previous text = some (kind, size) ↔ IsChosen previous text kind size := by
  constructor
  · exact isChosen_of_longestMatch
  · intro h
    cases hmatch : longestMatch previous text with
    | none =>
        obtain ⟨_, pattern, _, hsplit, _, hlength, _⟩ := h
        rw [longestMatch_eq_none_iff.1 hmatch pattern (by rw [hsplit]; simp)] at hlength
        cases hlength
    | some found =>
        obtain ⟨rfl, rfl⟩ := (isChosen_of_longestMatch hmatch).unique h
        rfl

/-- A pattern that covers the whole text is chosen if none of those listed
earlier does so. -/
theorem isChosen_of_covers {before after : List Pattern} {pattern : Pattern}
    (hsplit : all = before ++ pattern :: after)
    (hlength : pattern.length? previous text = some text.length)
    (hbefore : ∀ other ∈ before, other.length? previous text ≠ some text.length) :
    IsChosen previous text pattern.kind text.length := by
  refine ⟨before, pattern, after, hsplit, rfl, hlength, ?_, ?_⟩
  · intro other hother n hn
    have hmember : other ∈ all := by rw [hsplit]; exact List.mem_append_left _ hother
    apply Nat.lt_of_le_of_ne (coversSome_of_mem hmember previous text n hn).2
    rintro rfl
    exact hbefore other hother hn
  · intro other hother n hn
    have hmember : other ∈ all := by
      rw [hsplit]
      exact List.mem_append_right _ (List.mem_cons_of_mem pattern hother)
    exact (coversSome_of_mem hmember previous text n hn).2

end

def delimited : List Pattern :=
  [⟨.date, fun _ => date?⟩, ⟨.file, fun _ => file?⟩, ⟨.string, fun _ => string?⟩,
    ⟨.regExp, fun _ => regExp?⟩]

/-- The patterns for quoted texts and regular expressions match at their opening
mark only. -/
theorem head?_of_delimited (previous : Option Char) (text : List Char) :
    ∀ pattern ∈ delimited, ∀ size, pattern.length? previous text = some size →
      text.head? = some '"' ∨ text.head? = some '/' := by
  have hquoted {size : Nat} (h : plainQuoted? text = some size) : text.head? = some '"' := by
    unfold plainQuoted? at h
    split at h
    · rfl
    · cases h
  simp only [delimited, List.forall_mem_cons]
  refine ⟨?_, ?_, ?_, ?_, nofun⟩
  · intro size hdate
    obtain ⟨_, hmatch, _⟩ := Option.bind_eq_some_iff.1 hdate
    exact .inl (hquoted hmatch)
  · intro size hfile
    obtain ⟨_, hmatch, _⟩ := Option.bind_eq_some_iff.1 hfile
    exact .inl (hquoted hmatch)
  · intro size (hstring : string? text = some size)
    unfold string? at hstring
    split at hstring
    · exact .inl rfl
    · cases hstring
  · intro size (hregExp : regExp? text = some size)
    unfold regExp? at hregExp
    split at hregExp
    · cases hregExp
    · exact .inr rfl
    · cases hregExp

theorem delimited_ne_some {text : List Char} (hstart : ∀ c ∈ text.head?, c ≠ '"' ∧ c ≠ '/')
    (previous : Option Char) {pattern : Pattern} (h : pattern ∈ delimited) (size : Nat) :
    pattern.length? previous text ≠ some size := by
  intro hmatch
  rcases head?_of_delimited previous text pattern h size hmatch with hquote | hslash
  · exact (hstart _ hquote).1 rfl
  · exact (hstart _ hslash).2 rfl

end ConfigNotation.Pattern
