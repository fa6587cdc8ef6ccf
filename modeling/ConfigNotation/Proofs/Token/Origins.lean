import ConfigNotation.Proofs.Token.Match
import ConfigNotation.Syntax.Parser.Expr
import ConfigNotation.Token.Lexer

/-!
What the tokens of a text are known by: each of them, but for the end, is a longest match.
-/

namespace ConfigNotation

open Text Pattern

/-- A token that is the longest match at some place. -/
def Token.IsMatched (token : Token) : Prop :=
  ∃ previous text size, longestMatch previous text = some (token.kind, size) ∧
    token.text.toList = text.take size

theorem tokensFrom_matched {offset : Nat} {position : Position} {previous : Option Char}
    {text : List Char} {tokens : List Token}
    (h : tokensFrom offset position previous text = .ok tokens) :
    ∀ token ∈ tokens, token.kind ≠ .endOfInput → token.IsMatched := by
  fun_induction tokensFrom offset position previous text generalizing tokens with
  | case1 offset position previous =>
      cases h
      intro token htoken hkind
      rw [List.mem_singleton.1 htoken] at hkind
      exact absurd rfl hkind
  | case2 offset position previous c rest hblank ih => exact ih h
  | case3 offset position previous c rest hblank hmatch => cases h
  | case4 offset position previous c rest hblank kind size hmatch lexeme stop =>
      rename_i ih
      obtain ⟨hpositive, _, _⟩ := longestMatch_spec hmatch
      obtain ⟨size, rfl⟩ := Nat.exists_eq_add_one.2 hpositive
      cases hfollowing : tokensFrom stop (position.after lexeme) lexeme.getLast?
          (rest.drop (size + 1 - 1)) with
      | error error =>
          rw [hfollowing] at h
          cases h
      | ok following =>
          rw [hfollowing] at h
          cases h
          refine List.forall_mem_cons.2 ⟨fun _ => ?_, ih hfollowing⟩
          exact ⟨previous, c :: rest, size + 1, hmatch, String.toList_ofList⟩

theorem lex_matched {source : String} {lexed : Lexed} (h : lex source = .ok lexed) :
    ∀ token ∈ lexed.tokens, token.kind ≠ .endOfInput → token.IsMatched := by
  rw [lex] at h
  cases hstrip : stripComments source.toList with
  | error error =>
      rw [hstrip] at h
      cases h
  | ok text =>
      rw [hstrip] at h
      cases htokens : tokensFrom 0 .start none text with
      | error error =>
          simp only [bind, Except.bind, htokens] at h
          cases h
      | ok tokens =>
          simp only [bind, Except.bind, htokens] at h
          cases h
          exact tokensFrom_matched htokens

theorem Pattern.isIdentifier_of_ident? {text : List Char} {size : Nat}
    (h : ident? text = some size) : isIdentifier (text.take size) = true := by
  cases text with
  | nil => cases h
  | cons c rest =>
      rw [ident?, Option.ite_none_right_eq_some] at h
      obtain ⟨hstart, heq⟩ := h
      cases heq
      rw [Nat.add_comm, List.take_succ_cons, take_takeWhile, isIdentifier, hstart,
        List.all_takeWhile]
      rfl

namespace Token.IsMatched

variable {token : Token}

theorem regExp? (h : token.IsMatched) (hkind : token.kind = .regExp) :
    ∃ text size, Pattern.regExp? text = some size ∧ token.text.toList = text.take size := by
  obtain ⟨previous, text, size, hmatch, htext⟩ := h
  rw [hkind] at hmatch
  cases longestMatch_shape hmatch with
  | regExp hregExp => exact ⟨text, size, hregExp, htext⟩
  | ending hending => exact absurd hending (by decide)
  | plain hplain => exact absurd hplain (by decide)

/-- A token of a kind with one pattern is a match of that pattern. -/
theorem length?_of_kind (h : token.IsMatched) (length? : List Char → Option Nat)
    (honly : all.filter (·.kind = token.kind) = [⟨token.kind, fun _ => length?⟩]) :
    ∃ text size, length? text = some size ∧ token.text.toList = text.take size := by
  obtain ⟨previous, text, size, hmatch, htext⟩ := h
  obtain ⟨_, ⟨pattern, hpattern, hsame, hlength⟩, _⟩ := longestMatch_spec hmatch
  rw [eq_of_filter_all honly hpattern hsame] at hlength
  exact ⟨text, size, hlength, htext⟩

theorem assocKey? (h : token.IsMatched) (hkind : token.kind = .assocKey) :
    ∃ text size, Pattern.assocKey? text = some size ∧ token.text.toList = text.take size := by
  refine h.length?_of_kind Pattern.assocKey? ?_
  rw [hkind]
  rfl

/-- A name is an identifier. -/
theorem isIdentifier_text (h : token.IsMatched) (hkind : token.kind = .ident) :
    isIdentifier token.text.toList = true := by
  obtain ⟨text, size, hident, htext⟩ := h.length?_of_kind Pattern.ident? (by
    rw [hkind]
    rfl)
  rw [htext]
  exact isIdentifier_of_ident? hident

/-- A key is an at sign and an identifier. -/
theorem isIdentifier_keyName (h : token.IsMatched) (hkind : token.kind = .assocKey) :
    isIdentifier (Parser.keyName token).toList = true := by
  obtain ⟨text, size, hkey, htext⟩ := h.assocKey? hkind
  unfold Pattern.assocKey? at hkey
  split at hkey
  · next rest =>
    obtain ⟨inner, hident, rfl⟩ := Option.map_eq_some_iff.1 hkey
    rw [Parser.keyName, htext, List.take_succ_cons, String.toList_ofList, dropLeading, if_pos rfl]
    exact isIdentifier_of_ident? hident
  · cases hkey

end Token.IsMatched

end ConfigNotation
