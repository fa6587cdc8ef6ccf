import Mathlib.Data.List.Chain
import ConfigNotation.Proofs.Text.Blanking
import ConfigNotation.Proofs.Token.Identifiers
import ConfigNotation.Proofs.Token.Origins

/-!
Words that stand apart from others. A word behind a character of another one is no reserved word
even if it is spelled like one; behind a mark a token for a name is a name in its own right, and
stays one in any other place behind and in front of marks.
-/

namespace ConfigNotation

open Text Pattern

/-- A word that is a name by itself: it is not reserved, and it spells no
number. -/
structure IsFreeName (name : List Char) : Prop where
  identifier : isIdentifier name = true
  free : String.ofList name ∉ reservedWords
  number : ¬IsNumberWord name
  integer : ¬IsIntegerWord name

/-- In front of a text that ends a type: a semicolon or a closing bracket, if
there is anything. -/
def EndsType (rest : List Char) : Prop := ∀ c ∈ rest.head?, c = ';' ∨ c = ']'

theorem EndsType.stops {rest : List Char} (h : EndsType rest) : Stops rest := by
  intro c hc
  rcases h c hc with rfl | rfl <;> decide

/-- What is matched in front of a mark and has no such mark in it ends before
the mark. -/
theorem EndsType.le_of_not_mem {name rest : List Char} {size : Nat} (hends : EndsType rest)
    (hsize : size ≤ (name ++ rest).length) (hmark : ∀ c ∈ [';', ']'], c ∉ (name ++ rest).take size) :
    size ≤ name.length := by
  by_contra hlong
  cases rest with
  | nil => exact hlong (by simpa using hsize)
  | cons c tail =>
      obtain ⟨more, hmore⟩ := Nat.exists_eq_add_one.2 (Nat.sub_pos_of_lt (Nat.lt_of_not_le hlong))
      refine hmark c (by simpa using hends c rfl) ?_
      rw [List.take_append, hmore, List.take_succ_cons]
      simp

/-- No mark behind a type is a digit. -/
theorem isDigit_mark {c : Char} (h : c ∈ [';', ']']) (radix : Radix) :
    (radix.isDigit c || c == '_') = false := by
  have hall : ∀ c ∈ [';', ']'], (radix.isDigit c || c == '_') = false := by
    cases radix <;> decide
  exact hall c h

theorem NumberText.WellFormed.mark_not_mem {number : NumberText} (h : number.WellFormed)
    (negative : Bool) {c : Char} (hc : c ∈ [';', ']']) :
    c ∉ minusChars negative ++ number.chars := by
  have hother : ∀ c ∈ [';', ']'], c ∉ ['0', 'x', 'o', 'b', 'e', '.', '+', '-', 'N', 'a'] ∧
      c ∉ chars .infinity ∧ c ∉ minusChars negative := by
    cases negative <;> decide
  obtain ⟨hmark, hinfinity, hminus⟩ := hother c hc
  rw [List.mem_append, not_or]
  exact ⟨hminus, h.not_mem_chars (isDigit_mark hc) hmark fun _ => hinfinity⟩

theorem IntegerText.WellFormed.mark_not_mem {integer : IntegerText} (h : integer.WellFormed)
    {c : Char} (hc : c ∈ [';', ']']) : c ∉ integer.chars := by
  have hother : ∀ c ∈ [';', ']'], c ∉ ['0', 'x', 'o', 'b', '-', 'n'] := by decide
  exact h.not_mem_chars (isDigit_mark hc) (hother c hc)

namespace IsFreeName

variable {name rest : List Char} (h : IsFreeName name)

include h

theorem ne_reserved (word : String) (hreserved : word ∈ reservedWords) : name ≠ word.toList := by
  rintro rfl
  exact h.free (by rwa [String.ofList_toList])

variable (hends : EndsType rest)

include hends

theorem number?_lt (size : Nat) (hmatch : number? (name ++ rest) = some size) :
    size < name.length := by
  obtain ⟨negative, number, hwell, htake⟩ := number?_eq_some hmatch
  have hle := hends.le_of_not_mem (coversSome_number _ size hmatch).2 fun c hc =>
    htake ▸ hwell.mark_not_mem negative hc
  refine Nat.lt_of_le_of_ne hle ?_
  rintro rfl
  rw [List.take_left] at htake
  have hnumber := number?_eq_length_iff.2 ⟨negative, number, hwell, htake⟩
  exact h.number (isNumberWord_of_number? h.identifier (h.ne_reserved "Infinity" (by decide))
    (h.ne_reserved "NaN" (by decide)) hnumber)

theorem bigInt?_lt (size : Nat) (hmatch : bigInt? (name ++ rest) = some size) :
    size < name.length := by
  obtain ⟨integer, hwell, htake⟩ := bigInt?_eq_some hmatch
  have hle := hends.le_of_not_mem (coversSome_bigInt _ size hmatch).2 fun c hc =>
    htake ▸ hwell.mark_not_mem hc
  refine Nat.lt_of_le_of_ne hle ?_
  rintro rfl
  rw [List.take_left] at htake
  exact h.integer (isIntegerWord_of_bigInt? h.identifier
    (bigInt?_eq_length_iff.2 ⟨integer, hwell, htake⟩))

omit hends in
/-- In front of a mark behind a type a free name is a name. -/
theorem isLexeme : IsLexeme (fun previous rest => IsClear previous ∧ EndsType rest) .ident name :=
  isLexeme_of_isIdentifier h.identifier fun _ _ hfits =>
    longestMatch_eq_some_iff.2 (isChosen_ident_append h.identifier h.free hfits.2.stops
      (h.number?_lt hfits.2) (h.bigInt?_lt hfits.2))

end IsFreeName

/-- Of the patterns that are listed before those of a kind, none covers as much
as a match that is of this kind. -/
theorem Pattern.IsChosen.lt_of_listed {previous : Option Char} {text : List Char} {kind : TokenKind}
    {size : Nat} (h : IsChosen previous text kind size) {before after : List Pattern}
    (hsplit : all = before ++ after) (hkinds : ∀ pattern ∈ before, pattern.kind ≠ kind) :
    ∀ other ∈ before, ∀ n, other.length? previous text = some n → n < size := by
  obtain ⟨first, pattern, last, hall, hkind, -, hless, -⟩ := h
  have hbefore : before <+: first := by
    rcases List.append_eq_append_iff.1 (hsplit.symm.trans hall) with
      ⟨between, rfl, -⟩ | ⟨between, rfl, hrest⟩
    · exact List.prefix_append before between
    · cases between with
      | nil => simp
      | cons next between =>
          have hnext : next = pattern := (List.cons.inj hrest).1.symm
          exact absurd (hnext ▸ hkind) (hkinds next (by simp))
  exact fun other hother => hless other (hbefore.subset hother)

theorem decimalRun_append_of_areSpaced {digits : List Char} (h : AreSpaced Char.isDigit digits)
    (rest : List Char) : decimalRun (digits ++ rest) = digits ++ decimalRun rest :=
  List.takeWhile_append_of_pos h

/-- With a digit before its point a text starts with a decimal. -/
theorem decimal?_of_digit {text : List Char} (h : (decimalRun text).any Char.isDigit = true) :
    decimal? text = some ((decimalRun text).length + fractionSize (text.drop (decimalRun text).length) +
      exponentSize (text.drop ((decimalRun text).length +
        fractionSize (text.drop (decimalRun text).length)))) := by
  unfold decimal?
  dsimp only
  rw [if_pos]
  rw [List.take_add, List.any_append, take_decimalRun, h, Bool.true_or]

/-- Digits behind the mark of an exponent are in the exponent, with those that
follow. -/
theorem le_exponentSize {power : List Char} (hne : power ≠ []) (h : AreSpaced Char.isDigit power)
    (rest : List Char) : power.length + 1 ≤ exponentSize ('e' :: (power ++ rest)) := by
  have hrun := decimalRun_append_of_areSpaced h rest
  have hsign : ((power ++ rest).head? == some '+' || (power ++ rest).head? == some '-') = false := by
    obtain ⟨c, others, rfl⟩ := List.exists_cons_of_ne_nil hne
    have hdecimal : StartsDecimal c := .inl (h c List.mem_cons_self)
    have hplus : c ≠ '+' := hdecimal.ne rfl (by decide)
    have hminus : c ≠ '-' := hdecimal.ne rfl (by decide)
    simp [hplus, hminus]
  have hsome : power ++ decimalRun rest ≠ [] := List.append_ne_nil_of_left_ne_nil hne _
  simp only [exponentSize, hsign, Bool.false_eq_true, if_false, List.drop_zero, hrun, if_neg hsome,
    List.length_append]
  omega

/-- A word that spells a number is covered by a number, whatever follows it. -/
theorem IsNumberWord.le_number? {name : List Char} (h : IsNumberWord name)
    (hname : isIdentifier name = true) (rest : List Char) :
    ∃ size, Pattern.number? (name ++ rest) = some size ∧ name.length ≤ size := by
  have hdecimal (hstart : name.head? = some '_') :
      Pattern.number? (name ++ rest) = decimal? (name ++ rest) := by
    obtain ⟨tail, rfl⟩ := List.head?_eq_some_iff.1 hstart
    rfl
  cases h with
  | digits h =>
      have hrun := decimalRun_append_of_areSpaced h.1 rest
      have hdigit : (decimalRun (name ++ rest)).any Char.isDigit = true := by
        rw [hrun, List.any_append, h.2, Bool.true_or]
      rw [hdecimal (h.head?_eq hname (List.append_nil name).symm), decimal?_of_digit hdigit, hrun]
      refine ⟨_, rfl, ?_⟩
      rw [List.length_append]
      omega
  | @scientific digits power h hne hpower =>
      have htext : digits ++ 'e' :: power ++ rest = digits ++ 'e' :: (power ++ rest) := by simp
      have hrun : decimalRun (digits ++ 'e' :: (power ++ rest)) = digits :=
        h.1.decimalRun_append fun c hc => by cases hc; rfl
      have hdigit : (decimalRun (digits ++ 'e' :: (power ++ rest))).any Char.isDigit = true := by
        rw [hrun, h.2]
      have hexponent := le_exponentSize hne hpower rest
      have hpoint : fractionSize ('e' :: (power ++ rest)) = 0 := rfl
      rw [hdecimal (h.head?_eq hname rfl), htext, decimal?_of_digit hdigit, hrun, List.drop_left,
        hpoint, Nat.add_zero, List.drop_left]
      refine ⟨_, rfl, ?_⟩
      rw [List.length_append, List.length_cons]
      omega

/-- A reserved word is covered by a pattern of its own that is listed before the
one of names. -/
theorem exists_pattern_of_reserved {word : String} (hreserved : word ∈ reservedWords) :
    ∃ pattern ∈ all.take 24, ∀ previous rest, IsClear previous →
      (∀ c ∈ rest.head?, isWordChar c = false) →
        pattern.length? previous (word.toList ++ rest) = some word.toList.length := by
  have hword (kind : TokenKind) (word : String)
      (hlisted : (⟨kind, word? word.toList⟩ : Pattern) ∈ all.take 24) :
      ∃ pattern ∈ all.take 24, ∀ previous rest, IsClear previous →
        (∀ c ∈ rest.head?, isWordChar c = false) →
          pattern.length? previous (word.toList ++ rest) = some word.toList.length :=
    ⟨_, hlisted, fun _ _ => word?_append⟩
  have hnumber : (⟨.number, fun _ => Pattern.number?⟩ : Pattern) ∈ all.take 24 := by
    rw [all_eq]
    simp
  revert word
  simp only [reservedWords, List.forall_mem_cons]
  refine ⟨hword .importWord _ ?_, hword .useWord _ ?_, hword .exportWord _ ?_,
    hword .fromWord _ ?_, hword .asWord _ ?_, hword .skipWord _ ?_, hword .classWord _ ?_,
    hword .extendsWord _ ?_, hword .includesWord _ ?_, hword .boolean _ ?_, hword .boolean _ ?_,
    hword .null _ ?_, hword .undefined _ ?_, ⟨_, hnumber, fun _ _ _ _ => rfl⟩,
    ⟨_, hnumber, fun _ _ _ _ => rfl⟩, nofun⟩
  all_goals
    rw [all_eq]
    simp

/-- No character of a word stands behind an identifier. -/
theorem Pattern.head?_behind_ident? {text : List Char} {size : Nat} (h : ident? text = some size) :
    ∀ c ∈ (text.drop size).head?, isWordChar c = false := by
  cases text with
  | nil => cases h
  | cons first rest =>
      rw [ident?, Option.ite_none_right_eq_some] at h
      obtain ⟨-, heq⟩ := h
      cases heq
      have hdrop : rest.drop (rest.takeWhile isWordChar).length = rest.dropWhile isWordChar := by
        conv_lhs => arg 2; rw [← List.takeWhile_append_dropWhile (p := isWordChar) (l := rest)]
        rw [List.drop_left]
      intro c hc
      have hstop := List.head?_dropWhile_not isWordChar rest
      rw [Nat.add_comm, List.drop_succ_cons, hdrop] at hc
      rw [Option.mem_def.1 hc] at hstop
      simpa using hstop

/-- Behind a character that belongs to no word, what is cut off as a name is a
free name. -/
theorem isFreeName_of_longestMatch {previous : Option Char} {text : List Char} {size : Nat}
    (hclear : IsClear previous) (h : longestMatch previous text = some (.ident, size)) :
    IsFreeName (text.take size) := by
  have hchosen := longestMatch_eq_some_iff.1 h
  have hless := hchosen.lt_of_listed (List.take_append_drop 24 all).symm (by
    rw [all_eq]
    decide)
  obtain ⟨-, ⟨pattern, hpattern, hkind, hlength⟩, -⟩ := longestMatch_spec h
  have hident : ident? text = some size := by
    have honly : all.filter (·.kind = .ident) = [⟨.ident, fun _ => ident?⟩] := rfl
    rwa [eq_of_filter_all honly hpattern hkind] at hlength
  have hname := isIdentifier_of_ident? hident
  have hbehind := head?_behind_ident? hident
  have hsize : (text.take size).length = size := by
    rw [List.length_take]
    exact Nat.min_eq_left hchosen.coversSome.2
  have hparts := List.take_append_drop size text
  generalize text.take size = name, text.drop size = rest at *
  subst hparts hsize
  constructor
  · exact hname
  · intro hreserved
    obtain ⟨pattern, hlisted, hmatch⟩ := exists_pattern_of_reserved hreserved
    have hcovers := hmatch previous rest hclear hbehind
    rw [String.toList_ofList] at hcovers
    exact absurd (hless pattern hlisted _ hcovers) (Nat.lt_irrefl _)
  · intro hnumber
    obtain ⟨size, hmatch, hlong⟩ := hnumber.le_number? hname rest
    have hshort := hless ⟨.number, fun _ => Pattern.number?⟩ (by rw [all_eq]; simp) size hmatch
    omega
  · intro hinteger
    obtain ⟨integer, hwell, rfl⟩ := bigInt?_eq_length_iff.1 hinteger.bigInt?
    have hshort := hless ⟨.bigInt, fun _ => Pattern.bigInt?⟩ (by rw [all_eq]; simp) _
      (hwell.bigInt?_append rest)
    exact absurd hshort (Nat.lt_irrefl _)

/-- A token that is the longest match behind a character that belongs to no
word. -/
def Token.StandsClear (token : Token) : Prop :=
  ∃ previous text size, IsClear previous ∧ longestMatch previous text = some (token.kind, size) ∧
    token.text.toList = text.take size

/-- What is known of a token by the one in front of it: it stands clear if that
one does not end in a character of a word. -/
def Token.Precedes (first second : Token) : Prop :=
  IsClear first.text.toList.getLast? → second.kind ≠ .endOfInput → second.StandsClear

theorem Token.StandsClear.isFreeName {token : Token} (h : token.StandsClear)
    (hkind : token.kind = .ident) : IsFreeName token.text.toList := by
  obtain ⟨previous, text, size, hclear, hmatch, htext⟩ := h
  rw [htext]
  exact isFreeName_of_longestMatch hclear (hkind ▸ hmatch)

theorem not_isWordChar_of_isBlank {c : Char} (h : isBlank c = true) : isWordChar c = false := by
  cases hword : isWordChar c with
  | false => rfl
  | true =>
      rw [isBlank_of_isWordChar hword] at h
      cases h

structure Follow (text : List Char) (tokens : List Token) : Prop where
  precedes : tokens.IsChain Token.Precedes
  inside : ∀ token ∈ tokens, token.text.toList ⊆ text

/-- Each token of a text is behind a blank or behind the last character of the
token before. -/
theorem tokensFrom_follow {offset : Nat} {position : Position} {previous : Option Char}
    {text : List Char} {tokens : List Token}
    (h : tokensFrom offset position previous text = .ok tokens) :
    (IsClear previous → ∀ token ∈ tokens.head?, token.kind ≠ .endOfInput → token.StandsClear) ∧
      Follow text tokens := by
  fun_induction tokensFrom offset position previous text generalizing tokens with
  | case1 offset position previous =>
      cases h
      refine ⟨fun _ token htoken hkind => ?_, .singleton _, ?_⟩
      · cases htoken
        exact absurd rfl hkind
      · exact List.forall_mem_singleton.2 (List.nil_subset _)
  | case2 offset position previous c rest hblank ih =>
      obtain ⟨hfirst, hfollow⟩ := ih h
      refine ⟨fun _ => hfirst ?_, hfollow.precedes, fun token htoken => ?_⟩
      · rintro d ⟨⟩
        exact not_isWordChar_of_isBlank hblank
      · exact List.Subset.trans (hfollow.inside token htoken) (List.subset_cons_self c rest)
  | case3 offset position previous c rest hblank hmatch => cases h
  | case4 offset position previous c rest hblank kind size hmatch lexeme stop =>
      rename_i ih
      obtain ⟨hpositive, _, _⟩ := longestMatch_spec hmatch
      obtain ⟨size, rfl⟩ := Nat.exists_eq_add_one.2 hpositive
      cases hfollowing : tokensFrom stop (position.after lexeme) lexeme.getLast?
          (rest.drop (size + 1 - 1)) with
      | error error =>
          rw [hfollowing] at h
          cases h
      | ok following =>
          rw [hfollowing] at h
          cases h
          obtain ⟨hfirst, hfollow⟩ := ih hfollowing
          have htext : (String.ofList lexeme).toList = (c :: rest).take (size + 1) :=
            String.toList_ofList
          refine ⟨?_, .cons hfollow.precedes fun token htoken hclear => ?_, ?_⟩
          · rintro hclear token ⟨⟩ _
            exact ⟨previous, c :: rest, size + 1, hclear, hmatch, htext⟩
          · rw [String.toList_ofList] at hclear
            exact hfirst hclear token htoken
          · refine List.forall_mem_cons.2 ⟨?_, fun token htoken => ?_⟩
            · rw [htext]
              exact List.take_subset _ _
            · refine List.Subset.trans (hfollow.inside token htoken) ?_
              exact List.Subset.trans (List.drop_subset _ _) (List.subset_cons_self c rest)

theorem lex_follow {source : String} {lexed : Lexed} (h : lex source = .ok lexed) :
    Follow lexed.text.toList lexed.tokens := by
  rw [lex] at h
  cases hstrip : stripComments source.toList with
  | error error =>
      rw [hstrip] at h
      cases h
  | ok text =>
      rw [hstrip] at h
      cases htokens : tokensFrom 0 .start none text with
      | error error =>
          simp only [bind, Except.bind, htokens] at h
          cases h
      | ok tokens =>
          simp only [bind, Except.bind, htokens] at h
          cases h
          rw [String.toList_ofList]
          exact (tokensFrom_follow htokens).2

/-- A text that tokens are cut from has its line ends normalized. -/
theorem return_not_mem_of_lex {source : String} {lexed : Lexed} (h : lex source = .ok lexed) :
    '\r' ∉ lexed.text.toList := by
  cases hstrip : stripComments source.toList with
  | error error =>
      rw [lex, hstrip] at h
      cases h
  | ok text =>
      rw [lex_eq hstrip] at h
      cases htokens : tokensBehind [] text with
      | error error =>
          rw [htokens] at h
          cases h
      | ok tokens =>
          rw [htokens] at h
          cases h
          rw [String.toList_ofList]
          exact not_mem_of_keepsPlace (stripComments_keepsPlace hstrip) (by decide)
            (return_not_mem_normalizeNewlines _)

end ConfigNotation
