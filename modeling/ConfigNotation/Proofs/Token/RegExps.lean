import ConfigNotation.Proofs.Token.Spelling
import ConfigNotation.Syntax.Literal

/-!
Regular expressions as literals. The text of one is a token wherever no word goes on behind
it, and it is read as the regular expression again; and what a token is read as is one of
which this holds.
-/

namespace ConfigNotation

open Text Pattern

namespace Pattern

/-- A text that is read inside a regular expression without closing it. -/
inductive StaysInside : List Char → Prop where
  | nil : StaysInside []
  | plain {c : Char} {rest : List Char} (hslash : c ≠ '/') (hbackslash : c ≠ '\\')
      (hbreak : isLineBreak c = false) (hrest : StaysInside rest) :
      StaysInside (c :: rest)
  | pair {c : Char} {rest : List Char} (hbreak : isLineBreak c = false)
      (hrest : StaysInside rest) :
      StaysInside ('\\' :: c :: rest)

theorem regExpRest?_cons_plain {c : Char} (rest : List Char) (hslash : c ≠ '/')
    (hbackslash : c ≠ '\\') (hbreak : isLineBreak c = false) :
    regExpRest? (c :: rest) = (regExpRest? rest).map (· + 1) := by
  rw [regExpRest?.eq_def (c :: rest)]
  split
  · next heq => cases heq
  · next heq => cases heq; exact absurd rfl hslash
  · next heq => cases heq; exact absurd rfl hbackslash
  · next heq => cases heq; exact absurd rfl hbackslash
  · next heq =>
    cases heq
    exact if_neg (by simp [hbreak])

theorem StaysInside.regExpRest? {body : List Char} (h : StaysInside body) (rest : List Char) :
    regExpRest? (body ++ '/' :: rest) = some (body.length + 1) := by
  induction h with
  | nil => rfl
  | plain hslash hbackslash hbreak _ ih =>
      rw [List.cons_append, regExpRest?_cons_plain _ hslash hbackslash hbreak, ih]
      rfl
  | pair hbreak _ ih =>
      rw [List.cons_append, List.cons_append, Pattern.regExpRest?, hbreak, ih, if_neg nofun]
      rfl

/-- What is left of a regular expression is some text inside it and its closing
slash. -/
theorem regExpRest?_eq_some {text : List Char} {size : Nat} (h : regExpRest? text = some size) :
    ∃ body rest, text = body ++ '/' :: rest ∧ size = body.length + 1 ∧ StaysInside body := by
  fun_induction regExpRest? text generalizing size with
  | case1 => cases h
  | case2 rest =>
      cases h
      exact ⟨[], rest, rfl, rfl, .nil⟩
  | case3 => cases h
  | case4 => cases h
  | case5 c rest hbreak ih =>
      obtain ⟨inner, hinner, rfl⟩ := Option.map_eq_some_iff.1 h
      obtain ⟨body, rest, rfl, rfl, hinside⟩ := ih hinner
      exact ⟨'\\' :: c :: body, rest, rfl, rfl, .pair (by simpa using hbreak) hinside⟩
  | case6 => cases h
  | case7 c rest hslash hend hpair hbreak ih =>
      obtain ⟨inner, hinner, rfl⟩ := Option.map_eq_some_iff.1 h
      have hbackslash : c ≠ '\\' := by
        rintro rfl
        cases rest with
        | nil => exact hend rfl rfl
        | cons d rest => exact hpair d rest rfl rfl
      obtain ⟨body, rest, rfl, rfl, hinside⟩ := ih hinner
      exact ⟨c :: body, rest, rfl, rfl, .plain hslash hbackslash (by simpa using hbreak) hinside⟩

theorem regExp?_eq_some {text : List Char} {size : Nat} (h : regExp? text = some size) :
    ∃ body flags, text.take size = '/' :: (body ++ '/' :: flags) ∧ body ≠ [] ∧
      StaysInside body ∧ ∀ c ∈ flags, isRegExpFlag c = true := by
  unfold regExp? at h
  split at h
  · cases h
  · next rest hsecond =>
    obtain ⟨inner, hinner, rfl⟩ := Option.map_eq_some_iff.1 h
    obtain ⟨body, rest, rfl, rfl, hinside⟩ := regExpRest?_eq_some hinner
    refine ⟨body, rest.takeWhile isRegExpFlag, ?_, ?_, hinside, fun c hc => ?_⟩
    · have hdrop : (body ++ '/' :: rest).drop (body.length + 1) = rest := by
        simp [List.drop_append]
      rw [hdrop, Nat.add_assoc, Nat.add_comm 1, List.take_succ_cons, Nat.add_assoc,
        List.take_length_add_append, Nat.add_comm 1, List.take_succ_cons, take_takeWhile]
    · rintro rfl
      exact hsecond rest rfl
    · exact List.all_eq_true.1 List.all_takeWhile c hc
  · cases h

theorem isWordChar_of_isRegExpFlag {c : Char} (h : isRegExpFlag c = true) :
    isWordChar c = true := by
  have hflags : ∀ c ∈ "igsmuy".toList, isWordChar c = true := by decide
  exact hflags c (List.contains_iff_mem.1 h)

end Pattern

namespace Text

theorem splitAtLast?_of_not_mem {c : Char} {mark text : List Char} (h : c ∉ text) :
    splitAtLast? (c :: mark) text = none := by
  induction text with
  | nil => rfl
  | cons d rest ih =>
      rw [List.mem_cons, not_or] at h
      simp [splitAtLast?, ih h.2, List.isPrefixOf, h.1]

/-- The last place of a mark is where its first character stands for the last
time. -/
theorem splitAtLast?_append (before : List Char) {c : Char} {mark after : List Char}
    (h : c ∉ mark ++ after) :
    splitAtLast? (c :: mark) (before ++ c :: (mark ++ after)) = some (before, after) := by
  induction before with
  | nil =>
      have hprefix : (c :: mark).isPrefixOf (c :: (mark ++ after)) = true :=
        List.isPrefixOf_iff_prefix.2 ⟨after, rfl⟩
      rw [List.nil_append, splitAtLast?, splitAtLast?_of_not_mem h]
      dsimp only
      rw [if_pos hprefix, List.length_cons, List.drop_succ_cons, List.drop_left]
  | cons d before ih => simp [splitAtLast?, ih]

end Text

namespace RegExp

variable {value : RegExp}

/-- A regular expression that a literal can stand for. -/
structure IsLiteral (value : RegExp) : Prop where
  inside : StaysInside value.source.toList
  nonempty : value.source.toList ≠ []
  flags : ∀ c ∈ value.flags.toList, isRegExpFlag c = true
  valid : Regex.isValid value.source.toList value.flags.toList = true

theorem toList_text (value : RegExp) :
    value.text.toList = '/' :: (value.source.toList ++ '/' :: value.flags.toList) := by
  have htext : value.text = "/" ++ value.source ++ "/" ++ value.flags := rfl
  simp [htext]

theorem IsLiteral.regExp? (h : value.IsLiteral) {rest : List Char} (hstops : Stops rest) :
    regExp? (value.text.toList ++ rest) = some value.text.toList.length := by
  have hflags : (value.flags.toList ++ rest).takeWhile isRegExpFlag = value.flags.toList := by
    refine takeWhile_append_stop h.flags fun c hc => ?_
    cases hflag : isRegExpFlag c with
    | false => rfl
    | true =>
        have hword := isWordChar_of_isRegExpFlag hflag
        rw [(hstops c hc).1] at hword
        cases hword
  have hdrop : (value.source.toList ++ '/' :: (value.flags.toList ++ rest)).drop
      (value.source.toList.length + 1) = value.flags.toList ++ rest := by
    simp [List.drop_append]
  have htext : value.text.toList ++ rest =
      '/' :: (value.source.toList ++ '/' :: (value.flags.toList ++ rest)) := by
    simp [toList_text]
  rw [htext, toList_text]
  unfold Pattern.regExp?
  split
  · next heq =>
    -- the source starts with no slash, as it is not over at once
    have hinside := h.inside
    have hnonempty := h.nonempty
    cases hsource : value.source.toList with
    | nil => exact absurd hsource hnonempty
    | cons c body =>
        rw [hsource] at heq hinside
        cases heq
        cases hinside with
        | plain hslash => exact absurd rfl hslash
  · next heq =>
    cases heq
    rw [h.inside.regExpRest?, Option.map_some, hdrop, hflags]
    simp only [List.length_cons, List.length_append]
    exact congrArg some (by omega)
  · next hother => exact absurd rfl (hother _)

/-- The text of a regular expression is a token in front of anything but more of
a word. -/
theorem IsLiteral.isToken (h : value.IsLiteral) :
    IsToken (fun _ rest => Stops rest) .regExp value.text.toList where
  starts := ⟨'/', _, value.toList_text, by decide⟩
  longest previous rest hstops := by
    have hmatch := h.regExp? hstops
    rw [toList_text, List.cons_append] at hmatch ⊢
    have hlongest : longestMatch previous
        ('/' :: (value.source.toList ++ '/' :: value.flags.toList ++ rest)) =
        [(⟨.regExp, fun _ => Pattern.regExp?⟩ : Pattern)].foldl (prefer previous
          ('/' :: (value.source.toList ++ '/' :: value.flags.toList ++ rest))) none := by
      rw [longestMatch, all_eq]
      rfl
    have hpositive : 0 < ('/' :: (value.source.toList ++ '/' :: value.flags.toList)).length :=
      Nat.succ_pos _
    rw [hlongest, List.foldl_cons, List.foldl_nil, prefer]
    dsimp only
    rw [hmatch]
    exact if_pos hpositive

theorem splitRegExp_eq (body : List Char) {flags : List Char}
    (h : ∀ c ∈ flags, isRegExpFlag c = true) :
    Literal.splitRegExp ('/' :: (body ++ '/' :: flags)) = (body, flags) := by
  have hslash : '/' ∉ [] ++ flags := fun hmember => absurd (h _ hmember) (by decide)
  have hsplit : splitAtLast? ['/'] (body ++ '/' :: flags) = some (body, flags) :=
    splitAtLast?_append body hslash
  rw [Literal.splitRegExp, dropLeading, if_pos rfl, hsplit]
  rfl

theorem IsLiteral.readRegExp (h : value.IsLiteral)
    (explain : List Char → List Char → String) :
    Literal.readRegExp explain value.text.toList = .ok value := by
  rw [Literal.readRegExp, toList_text, splitRegExp_eq _ h.flags]
  dsimp only
  rw [if_pos h.valid, String.ofList_toList, String.ofList_toList]

/-- What the text of a token is read as can be written as a literal again. -/
theorem isLiteral_of_readRegExp {explain : List Char → List Char → String}
    {text : List Char} {size : Nat} (htoken : Pattern.regExp? text = some size)
    (h : Literal.readRegExp explain (text.take size) = .ok value) :
    value.IsLiteral := by
  obtain ⟨body, flags, hsplit, hnonempty, hinside, hflags⟩ := regExp?_eq_some htoken
  rw [hsplit, Literal.readRegExp, splitRegExp_eq body hflags] at h
  dsimp only at h
  split at h
  · next hvalid =>
    cases h
    refine ⟨?_, ?_, ?_, ?_⟩
    · rwa [String.toList_ofList]
    · rwa [String.toList_ofList]
    · rwa [String.toList_ofList]
    · rwa [String.toList_ofList, String.toList_ofList]
  · cases h

end RegExp

end ConfigNotation
