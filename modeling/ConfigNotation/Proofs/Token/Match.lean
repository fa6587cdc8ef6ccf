import ConfigNotation.Text.Slice
import ConfigNotation.Token.Pattern

/-!
The longest match of all patterns, and what the tokens of each kind look like. Only
strings, dates, files and regular expressions can hold quotes or backslashes.
-/

namespace ConfigNotation.Pattern

/-- All patterns with their words as lists of characters, which are faster to
compare. -/
theorem all_eq : all =
    [⟨.date, fun _ => date?⟩, ⟨.file, fun _ => file?⟩, ⟨.string, fun _ => string?⟩,
      ⟨.regExp, fun _ => regExp?⟩, ⟨.number, fun _ => number?⟩, ⟨.bigInt, fun _ => bigInt?⟩,
      ⟨.boolean, word? ['T', 'r', 'u', 'e']⟩, ⟨.boolean, word? ['F', 'a', 'l', 's', 'e']⟩,
      ⟨.null, word? ['N', 'u', 'l', 'l']⟩,
      ⟨.undefined, word? ['U', 'n', 'd', 'e', 'f', 'i', 'n', 'e', 'd']⟩,
      ⟨.importWord, word? ['i', 'm', 'p', 'o', 'r', 't']⟩, ⟨.useWord, word? ['u', 's', 'e']⟩,
      ⟨.exportWord, word? ['e', 'x', 'p', 'o', 'r', 't']⟩,
      ⟨.fromWord, word? ['f', 'r', 'o', 'm']⟩, ⟨.asWord, word? ['a', 's']⟩,
      ⟨.skipWord, word? ['s', 'k', 'i', 'p']⟩, ⟨.classWord, word? ['c', 'l', 'a', 's', 's']⟩,
      ⟨.extendsWord, word? ['e', 'x', 't', 'e', 'n', 'd', 's']⟩,
      ⟨.includesWord, word? ['i', 'n', 'c', 'l', 'u', 'd', 'e', 's']⟩,
      ⟨.arrow, fun _ => fixed? ['=', '>']⟩, ⟨.spread, fun _ => fixed? ['.', '.', '.']⟩,
      ⟨.assocKey, fun _ => assocKey?⟩, ⟨.numericKey, fun _ => fixed? ['@', '*']⟩,
      ⟨.path, fun _ => path?⟩, ⟨.ident, fun _ => ident?⟩, ⟨.leftParen, fun _ => fixed? ['(']⟩,
      ⟨.rightParen, fun _ => fixed? [')']⟩, ⟨.leftBracket, fun _ => fixed? ['[']⟩,
      ⟨.rightBracket, fun _ => fixed? [']']⟩, ⟨.comma, fun _ => fixed? [',']⟩,
      ⟨.semicolon, fun _ => fixed? [';']⟩, ⟨.colon, fun _ => fixed? [':']⟩,
      ⟨.question, fun _ => fixed? ['?']⟩, ⟨.equals, fun _ => fixed? ['=']⟩] := rfl

/-- The pattern of a kind that only one pattern has. -/
theorem eq_of_filter_all {kind : TokenKind} {pattern other : Pattern}
    (honly : all.filter (·.kind = kind) = [other]) (hlisted : pattern ∈ all)
    (hkind : pattern.kind = kind) : pattern = other := by
  have hmem : pattern ∈ all.filter (·.kind = kind) :=
    List.mem_filter.2 ⟨hlisted, decide_eq_true hkind⟩
  rw [honly] at hmem
  exact List.mem_singleton.1 hmem

section

variable {previous : Option Char} {text : List Char}

/-- Patterns that are taken into account after a best match either all cover no
more, or one of them is chosen. -/
theorem foldl_prefer_first (patterns : List Pattern) (best : Option (TokenKind × Nat)) :
    (patterns.foldl (prefer previous text) best = best ∧
      ∀ other ∈ patterns, ∀ n, other.length? previous text = some n → n ≤ matchSize best) ∨
    ∃ before pattern after size, patterns = before ++ pattern :: after ∧
      pattern.length? previous text = some size ∧ matchSize best < size ∧
      (∀ other ∈ before, ∀ n, other.length? previous text = some n → n < size) ∧
      (∀ other ∈ after, ∀ n, other.length? previous text = some n → n ≤ size) ∧
      patterns.foldl (prefer previous text) best = some (pattern.kind, size) := by
  induction patterns generalizing best with
  | nil => exact .inl ⟨rfl, nofun⟩
  | cons first rest ih =>
      rw [List.foldl_cons]
      by_cases hlonger : ∃ size, first.length? previous text = some size ∧ matchSize best < size
      · obtain ⟨size, hlength, hlonger⟩ := hlonger
        have hnext : prefer previous text best first = some (first.kind, size) := by
          simp [prefer, hlength, hlonger]
        rw [hnext]
        rcases ih (some (first.kind, size)) with ⟨hsame, hall⟩ |
          ⟨before, pattern, after, more, rfl, hmatch, hmore, hbefore, hafter, hfound⟩
        · exact .inr ⟨[], first, rest, size, rfl, hlength, hlonger, nofun, hall, hsame⟩
        · have hsize : size < more := hmore
          refine .inr ⟨first :: before, pattern, after, more, rfl, hmatch, by omega, ?_, hafter,
            hfound⟩
          rw [List.forall_mem_cons]
          refine ⟨?_, hbefore⟩
          intro n hn
          rw [hlength, Option.some.injEq] at hn
          omega
      · have hshort : ∀ n, first.length? previous text = some n → n ≤ matchSize best :=
          fun n hn => Nat.le_of_not_lt fun hlt => hlonger ⟨n, hn, hlt⟩
        have hnext : prefer previous text best first = best := by
          unfold prefer
          split
          · next size hlength => exact if_neg (Nat.not_lt.2 (hshort size hlength))
          · rfl
        rw [hnext]
        rcases ih best with ⟨hsame, hall⟩ |
          ⟨before, pattern, after, more, rfl, hmatch, hmore, hbefore, hafter, hfound⟩
        · exact .inl ⟨hsame, List.forall_mem_cons.2 ⟨hshort, hall⟩⟩
        · refine .inr ⟨first :: before, pattern, after, more, rfl, hmatch, hmore, ?_, hafter,
            hfound⟩
          rw [List.forall_mem_cons]
          exact ⟨fun n hn => Nat.lt_of_le_of_lt (hshort n hn) hmore, hbefore⟩

/-- A pattern that covers more than those in front of it and no less than those
behind it covers the most. -/
theorem le_of_chosen {before after : List Pattern} {pattern : Pattern} {size : Nat}
    (hlength : pattern.length? previous text = some size)
    (hbefore : ∀ other ∈ before, ∀ n, other.length? previous text = some n → n < size)
    (hafter : ∀ other ∈ after, ∀ n, other.length? previous text = some n → n ≤ size) :
    ∀ other ∈ before ++ pattern :: after, ∀ n,
      other.length? previous text = some n → n ≤ size := by
  intro other hother n hn
  rw [List.mem_append, List.mem_cons] at hother
  rcases hother with hother | rfl | hother
  · exact Nat.le_of_lt (hbefore other hother n hn)
  · rw [hlength, Option.some.injEq] at hn
    omega
  · exact hafter other hother n hn

/-- A pattern is preferred to those before it if all of these cover less. -/
theorem foldl_prefer_last (patterns : List Pattern) {pattern : Pattern} {size : Nat}
    (hbefore : ∀ other ∈ patterns, ∀ n, other.length? previous text = some n → n < size)
    (hpositive : 0 < size) (hlast : pattern.length? previous text = some size) :
    (patterns ++ [pattern]).foldl (prefer previous text) none = some (pattern.kind, size) := by
  have hless : matchSize (patterns.foldl (prefer previous text) none) < size := by
    rcases foldl_prefer_first patterns none with ⟨hnone, _⟩ |
      ⟨_, other, _, n, hsplit, hlength, _, _, _, hsome⟩
    · rw [hnone]
      exact hpositive
    · rw [hsome]
      exact hbefore other (by rw [hsplit]; simp) n hlength
  rw [List.foldl_append, List.foldl_cons, List.foldl_nil, prefer, hlast]
  exact if_pos hless

/-- The longest match is that of a pattern, and no pattern covers more. -/
theorem longestMatch_spec {kind : TokenKind} {size : Nat}
    (h : longestMatch previous text = some (kind, size)) :
    0 < size ∧
      (∃ pattern ∈ all, pattern.kind = kind ∧ pattern.length? previous text = some size) ∧
      ∀ pattern ∈ all, ∀ other, pattern.length? previous text = some other → other ≤ size := by
  rcases foldl_prefer_first all none with ⟨hnone, _⟩ |
    ⟨before, pattern, after, found, hsplit, hlength, hmore, hbefore, hafter, hfound⟩
  · rw [← longestMatch, h] at hnone
    cases hnone
  · rw [← longestMatch, h] at hfound
    cases hfound
    refine ⟨hmore, ⟨pattern, by rw [hsplit]; simp, rfl, hlength⟩, ?_⟩
    rw [hsplit]
    exact le_of_chosen hlength hbefore hafter

end

/-- A character that neither opens nor protects anything in a string. -/
def IsPlain (c : Char) : Prop := c ≠ '"' ∧ c ≠ '\\'

instance : DecidablePred IsPlain := fun c => inferInstanceAs (Decidable (c ≠ '"' ∧ c ≠ '\\'))

def PlainUpTo (text : List Char) (size : Nat) : Prop := ∀ c ∈ text.take size, IsPlain c

def CoversPlain (length? : List Char → Option Nat) : Prop :=
  ∀ text size, length? text = some size → PlainUpTo text size

theorem isPlain_of (condition : Char → Bool) (hquote : condition '"' = false)
    (hbackslash : condition '\\' = false) {c : Char} (h : condition c = true) :
    IsPlain c := by
  constructor
  · rintro rfl
    rw [hquote] at h
    cases h
  · rintro rfl
    rw [hbackslash] at h
    cases h

theorem isPlain_of_isWordChar {c : Char} (h : isWordChar c = true) : IsPlain c :=
  isPlain_of isWordChar rfl rfl h

theorem isPlain_of_isIdentStart {c : Char} (h : isIdentStart c = true) : IsPlain c :=
  isPlain_of isIdentStart rfl rfl h

theorem take_takeWhile (condition : Char → Bool) (text : List Char) :
    text.take (text.takeWhile condition).length = text.takeWhile condition :=
  (List.prefix_iff_eq_take.1 (List.takeWhile_prefix condition)).symm

theorem take_of_isPrefixOf {word text : List Char} (h : word.isPrefixOf text = true) :
    text.take word.length = word :=
  (List.prefix_iff_eq_take.1 (List.isPrefixOf_iff_prefix.1 h)).symm

theorem PlainUpTo.zero (text : List Char) : PlainUpTo text 0 := by simp [PlainUpTo]

theorem PlainUpTo.cons {c : Char} {rest : List Char} {size : Nat} (hfirst : IsPlain c)
    (hrest : PlainUpTo rest size) :
    PlainUpTo (c :: rest) (size + 1) := by
  rw [PlainUpTo, List.take_succ_cons, List.forall_mem_cons]
  exact ⟨hfirst, hrest⟩

/-- Runs of plain characters can be put one behind the other, as the patterns
are. -/
theorem PlainUpTo.add {text : List Char} {first second : Nat} (hfirst : PlainUpTo text first)
    (hsecond : PlainUpTo (text.drop first) second) :
    PlainUpTo text (first + second) := by
  rw [PlainUpTo, List.take_add, List.forall_mem_append]
  exact ⟨hfirst, hsecond⟩

theorem PlainUpTo.takeWhile {condition : Char → Bool} (h : ∀ c, condition c = true → IsPlain c)
    (text : List Char) :
    PlainUpTo text (text.takeWhile condition).length := by
  intro c hmember
  rw [take_takeWhile] at hmember
  exact h c (List.all_eq_true.1 List.all_takeWhile c hmember)

theorem PlainUpTo.isPrefixOf {word text : List Char} (hword : ∀ c ∈ word, IsPlain c)
    (h : word.isPrefixOf text = true) :
    PlainUpTo text word.length := by
  intro c hmember
  rw [take_of_isPrefixOf h] at hmember
  exact hword c hmember

theorem coversPlain_fixed {word : List Char} (h : ∀ c ∈ word, IsPlain c) :
    CoversPlain (fixed? word) := by
  intro text size hsize
  rw [fixed?, Option.ite_none_right_eq_some] at hsize
  obtain ⟨hstarts, hsize⟩ := hsize
  cases hsize
  exact .isPrefixOf h hstarts

/-- A fixed word covers plain characters whatever stands in front of it; where
it is refused, nothing is covered. -/
theorem coversPlain_word {word : List Char} (h : ∀ c ∈ word, IsPlain c)
    (previous : Option Char) :
    CoversPlain (word? word previous) := by
  intro text size hsize
  rw [word?, Option.ite_none_right_eq_some] at hsize
  obtain ⟨hstarts, hsize⟩ := hsize
  cases hsize
  simp only [Bool.and_eq_true] at hstarts
  exact .isPrefixOf h hstarts.1.1

/-- A choice of patterns covers plain characters if both of its branches do. -/
theorem CoversPlain.orElse {first second : List Char → Option Nat} (hfirst : CoversPlain first)
    (hsecond : CoversPlain second) :
    CoversPlain fun text => first text <|> second text := by
  intro text size hsize
  dsimp only at hsize
  cases hmatch : first text with
  | some found => exact hfirst text size (hmatch.trans (by simpa [hmatch] using hsize))
  | none => exact hsecond text size (by simpa [hmatch] using hsize)

theorem CoversPlain.signed {length? : List Char → Option Nat} (h : CoversPlain length?) :
    CoversPlain (signed? length?) := by
  intro text size hsize
  unfold signed? at hsize
  split at hsize
  · obtain ⟨inner, hinner, rfl⟩ := Option.map_eq_some_iff.1 hsize
    exact .cons (by simp [IsPlain]) (h _ _ hinner)
  · exact h _ _ hsize

theorem coversPlain_radixInteger : CoversPlain radixInteger? := by
  have hdigits {isDigit : Char → Bool} {mark : Char} {rest : List Char} {size : Nat}
      (hplain : ∀ c, (isDigit c || c == '_') = true → IsPlain c) (hmark : IsPlain mark)
      (h : (if 0 < (rest.takeWhile fun c => isDigit c || c == '_').length then
        some ((rest.takeWhile fun c => isDigit c || c == '_').length + 2) else none) = some size) :
      PlainUpTo ('0' :: mark :: rest) size := by
    rw [Option.ite_none_right_eq_some] at h
    obtain ⟨_, h⟩ := h
    cases h
    exact .cons (by simp [IsPlain]) (.cons hmark (.takeWhile hplain rest))
  intro text size hsize
  unfold radixInteger? at hsize
  split at hsize
  · exact hdigits (fun c => isPlain_of (fun c => isHexDigit c || c == '_') rfl rfl)
      (by simp [IsPlain]) hsize
  · exact hdigits (fun c => isPlain_of (fun c => isOctalDigit c || c == '_') rfl rfl)
      (by simp [IsPlain]) hsize
  · exact hdigits (fun c => isPlain_of (fun c => isBinaryDigit c || c == '_') rfl rfl)
      (by simp [IsPlain]) hsize
  · cases hsize

theorem plainUpTo_decimalRun (text : List Char) : PlainUpTo text (decimalRun text).length :=
  .takeWhile (fun _ => isPlain_of isDecimalChar rfl rfl) text

theorem plainUpTo_fraction (text : List Char) : PlainUpTo text (fractionSize text) := by
  unfold fractionSize
  split
  · split
    · exact .zero _
    · exact .cons (by simp [IsPlain]) (plainUpTo_decimalRun _)
  · exact .zero _

theorem plainUpTo_exponent (text : List Char) : PlainUpTo text (exponentSize text) := by
  unfold exponentSize
  split
  · next rest =>
    have hsign : PlainUpTo rest
        (if rest.head? == some '+' || rest.head? == some '-' then 1 else 0) := by
      split
      · next hsign =>
        cases rest with
        | nil => simp [PlainUpTo]
        | cons c rest =>
            refine .cons ?_ (.zero rest)
            simp only [List.head?_cons, Bool.or_eq_true, beq_iff_eq, Option.some.injEq] at hsign
            rcases hsign with rfl | rfl <;> simp [IsPlain]
      · exact .zero _
    dsimp only
    generalize (if rest.head? == some '+' || rest.head? == some '-' then 1 else 0) = sign at hsign ⊢
    split
    · exact .zero _
    · rw [Nat.add_assoc, Nat.add_comm]
      exact .cons (by simp [IsPlain]) (hsign.add (plainUpTo_decimalRun _))
  · exact .zero _

theorem coversPlain_decimal : CoversPlain decimal? := by
  intro text size hsize
  unfold decimal? at hsize
  rw [Option.ite_none_right_eq_some] at hsize
  obtain ⟨_, hsize⟩ := hsize
  cases hsize
  exact ((plainUpTo_decimalRun text).add (plainUpTo_fraction _)).add (plainUpTo_exponent _)

/-- Numbers never reach into a string: no quote and no backslash is among their
characters. -/
theorem coversPlain_number : CoversPlain number? :=
  .signed (coversPlain_radixInteger.orElse ((coversPlain_fixed (by simp [IsPlain])).orElse
    ((coversPlain_fixed (by simp [IsPlain])).orElse coversPlain_decimal)))

theorem coversPlain_bigInt : CoversPlain bigInt? := by
  refine .signed ?_
  intro text size hsize
  obtain ⟨digits, hdigits, hsize⟩ := Option.bind_eq_some_iff.1 hsize
  rw [Option.ite_none_right_eq_some] at hsize
  obtain ⟨hmark, hsize⟩ := hsize
  cases hsize
  have hplain : PlainUpTo text digits := by
    have hdecimal : CoversPlain fun text =>
        if (decimalRun text).any Char.isDigit then some (decimalRun text).length else none := by
      intro text size hsize
      rw [Option.ite_none_right_eq_some] at hsize
      obtain ⟨_, hsize⟩ := hsize
      cases hsize
      exact plainUpTo_decimalRun text
    exact (coversPlain_radixInteger.orElse hdecimal) text digits hdigits
  refine hplain.add ?_
  cases hrest : text.drop digits with
  | nil => simp [hrest] at hmark
  | cons c rest =>
      have hletter : c = 'n' := by simpa [hrest] using hmark
      exact .cons (by simp [IsPlain, hletter]) (.zero rest)

theorem coversPlain_ident : CoversPlain ident? := by
  intro text size hsize
  cases text with
  | nil => cases hsize
  | cons c rest =>
      rw [ident?, Option.ite_none_right_eq_some] at hsize
      obtain ⟨hstart, hsize⟩ := hsize
      cases hsize
      rw [Nat.add_comm]
      exact .cons (isPlain_of_isIdentStart hstart)
        (.takeWhile (fun _ => isPlain_of_isWordChar) rest)

theorem coversPlain_assocKey : CoversPlain assocKey? := by
  intro text size hsize
  unfold assocKey? at hsize
  split at hsize
  · obtain ⟨inner, hinner, rfl⟩ := Option.map_eq_some_iff.1 hsize
    exact .cons (by simp [IsPlain]) (coversPlain_ident _ _ hinner)
  · cases hsize

theorem plainUpTo_pathTail (index : Bool) (text : List Char) :
    PlainUpTo text (pathTail index text) := by
  fun_induction pathTail index text with
  | case1 => exact .zero _
  | case2 index c rest hstart ih =>
      exact .cons (by simp [IsPlain]) (.cons (isPlain_of_isIdentStart hstart) ih)
  | case3 index c rest hstart hdigit ih =>
      exact .cons (by simp [IsPlain]) (.cons (isPlain_of Char.isDigit rfl rfl hdigit) ih)
  | case4 => exact .zero _
  | case5 index c rest hnot hchar ih =>
      refine .cons ?_ ih
      split at hchar
      · exact isPlain_of Char.isDigit rfl rfl hchar
      · exact isPlain_of_isWordChar hchar
  | case6 => exact .zero _

/-- Neither do dotted paths, with their segments of digits. -/
theorem coversPlain_path : CoversPlain path? := by
  intro text size hsize
  cases text with
  | nil => cases hsize
  | cons c rest =>
      rw [path?, Option.ite_none_right_eq_some] at hsize
      obtain ⟨hstart, hsize⟩ := hsize
      cases hsize
      rw [Bool.and_eq_true] at hstart
      rw [Nat.add_comm]
      exact .cons (isPlain_of_isIdentStart hstart.1) (plainUpTo_pathTail false rest)

theorem plainUpTo_anyCase {word text : List Char} (hword : ∀ c ∈ word, IsPlain c)
    (h : startsWithAnyCase word text = true) :
    PlainUpTo text word.length := by
  intro c hmember
  have hlower : c.toLower ∈ word := by
    rw [← eq_of_beq h]
    exact List.mem_map_of_mem hmember
  constructor
  · rintro rfl
    exact (hword _ hlower).1 rfl
  · rintro rfl
    exact (hword _ hlower).2 rfl

/-- Only letters change their case. -/
theorem eq_of_toLower {c d : Char} (h : c.toLower = d) (hletter : d.isLower = false) : c = d := by
  unfold Char.toLower at h
  split at h
  · next hupper =>
    have hvalue : (c.val.toNat + 32) % 4294967296 = d.val.toNat :=
      congrArg (fun d : Char => d.val.toNat) h
    have hlower : 65 ≤ c.val.toNat := hupper.1
    have hbound : c.val.toNat ≤ 90 := hupper.2
    have hrange : ¬(97 ≤ d.val.toNat ∧ d.val.toNat ≤ 122) := by
      rintro ⟨hlow, hhigh⟩
      have hsmall : d.isLower = true :=
        Bool.and_eq_true_iff.2 ⟨decide_eq_true hlow, decide_eq_true hhigh⟩
      rw [hletter] at hsmall
      cases hsmall
    omega
  · exact h

theorem utf8Size_of_toLower {c : Char} (h : c.toLower.val ≤ 127) : c.utf8Size = 1 := by
  rw [Char.utf8Size_eq_one_iff]
  unfold Char.toLower at h
  split at h
  · next hupper => exact UInt32.le_trans hupper.2 (by decide)
  · exact h

/-- A text in small letters of one byte each has as many bytes as characters, in
either case. -/
theorem byteSize_of_toLower {word text : List Char} (hword : ∀ c ∈ word, c.val ≤ 127)
    (h : text.map Char.toLower = word) : Text.byteSize text = word.length := by
  subst h
  induction text with
  | nil => rfl
  | cons c rest ih =>
      rw [List.map_cons, List.forall_mem_cons] at hword
      rw [Text.byteSize_cons, utf8Size_of_toLower hword.1, ih hword.2, List.map_cons,
        List.length_cons, Nat.add_comm]

theorem head?_anyCase {word text : List Char} (h : startsWithAnyCase ('.' :: word) text = true) :
    text.head? = some '.' := by
  have heq := eq_of_beq h
  cases text with
  | nil => cases heq
  | cons c rest =>
      rw [List.length_cons, List.take_succ_cons, List.map_cons, List.cons.injEq] at heq
      rw [List.head?_cons, eq_of_toLower heq.1 rfl]

/-- What a match of a kind looks like at the start of a text. -/
inductive Shape (text : List Char) : TokenKind → Nat → Prop where
  | string {size : Nat} (h : string? text = some size) : Shape text .string size
  /-- A quoted text with an ending behind it. -/
  | ending {kind : TokenKind} {quoted size : Nat} (hkind : kind = .date ∨ kind = .file)
      (hquoted : plainQuoted? text = some quoted) (hending : PlainUpTo (text.drop quoted) size)
      (hpoint : (text.drop quoted).head? = some '.') :
      Shape text kind (quoted + size)
  | regExp {size : Nat} (h : regExp? text = some size) : Shape text .regExp size
  | plain {kind : TokenKind} {size : Nat}
      (hkind : kind ∉ [TokenKind.string, .date, .file, .regExp]) (h : PlainUpTo text size) :
      Shape text kind size

/-- A date is a plain quoted text with its ending, so the quotes stand at its
ends and nowhere between. -/
theorem shape_of_date {text : List Char} {size : Nat} (h : date? text = some size) :
    Shape text .date size := by
  obtain ⟨quoted, hquoted, hsize⟩ := Option.bind_eq_some_iff.1 h
  rw [Option.ite_none_right_eq_some] at hsize
  obtain ⟨hending, hsize⟩ := hsize
  cases hsize
  exact .ending (.inl rfl) hquoted (plainUpTo_anyCase (by decide) hending) (head?_anyCase hending)

/-- A file literal has the same shape, with the name of an encoding as its
ending. -/
theorem shape_of_file {text : List Char} {size : Nat} (h : file? text = some size) :
    Shape text .file size := by
  obtain ⟨quoted, hquoted, hsize⟩ := Option.bind_eq_some_iff.1 h
  split at hsize
  · next rest hrest =>
    obtain ⟨ending, hfind, rfl⟩ := Option.map_eq_some_iff.1 hsize
    have hstarts : startsWithAnyCase ending rest = true := by simpa using List.find?_some hfind
    have hplain : ∀ ending ∈ encodingEndings, ∀ c ∈ ending, IsPlain c := by decide
    rw [Nat.add_assoc, Nat.add_comm 1]
    refine .ending (.inr rfl) hquoted ?_ (by rw [hrest]; rfl)
    rw [hrest]
    exact .cons (by simp [IsPlain])
      (plainUpTo_anyCase (hplain ending (List.mem_of_find?_eq_some hfind)) hstarts)
  · cases hsize

/-- The shape of what a pattern covers, for each pattern of the list. Only
strings and regular expressions may hold a quote inside. -/
theorem shape_of_length? (previous : Option Char) (text : List Char) :
    ∀ pattern ∈ all, ∀ size, pattern.length? previous text = some size →
      Shape text pattern.kind size := by
  have hword (kind : TokenKind) (word : String)
      (hkind : kind ∉ [TokenKind.string, .date, .file, .regExp])
      (hplain : ∀ c ∈ word.toList, IsPlain c) (size : Nat)
      (h : word? word.toList previous text = some size) : Shape text kind size :=
    .plain hkind (coversPlain_word hplain previous text size h)
  have hmark (kind : TokenKind) (word : String)
      (hkind : kind ∉ [TokenKind.string, .date, .file, .regExp])
      (hplain : ∀ c ∈ word.toList, IsPlain c) (size : Nat)
      (h : fixed? word.toList text = some size) : Shape text kind size :=
    .plain hkind (coversPlain_fixed hplain text size h)
  rw [all]
  simp only [List.forall_mem_cons]
  refine ⟨fun _ h => shape_of_date h, fun _ h => shape_of_file h, fun _ h => .string h,
    fun _ h => .regExp h, fun _ h => .plain (by decide) (coversPlain_number _ _ h),
    fun _ h => .plain (by decide) (coversPlain_bigInt _ _ h), ?_⟩
  and_intros
  all_goals first
    | exact hword _ _ (by decide) (by decide)
    | exact hmark _ _ (by decide) (by decide)
    | exact fun _ h => .plain (by decide) (coversPlain_assocKey _ _ h)
    | exact fun _ h => .plain (by decide) (coversPlain_path _ _ h)
    | exact fun _ h => .plain (by decide) (coversPlain_ident _ _ h)
    | exact nofun

/-- The shape of the token that is cut off, which is all that is known about it
when strings are followed through a source. -/
theorem longestMatch_shape {previous : Option Char} {text : List Char} {kind : TokenKind}
    {size : Nat} (h : longestMatch previous text = some (kind, size)) :
    Shape text kind size := by
  obtain ⟨_, ⟨pattern, hpattern, rfl, hlength⟩, _⟩ := longestMatch_spec h
  exact shape_of_length? previous text pattern hpattern size hlength

end ConfigNotation.Pattern
