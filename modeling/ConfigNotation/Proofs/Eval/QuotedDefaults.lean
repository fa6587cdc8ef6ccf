import ConfigNotation.Eval.Session
import ConfigNotation.Proofs.Eval.Interpolation
import ConfigNotation.Proofs.Eval.LiteralTypes
import ConfigNotation.Proofs.Source.Quoted
import ConfigNotation.Proofs.Token.Names

/-!
Defaults in quotes, as a source string can hold them: with a backslash before each quote.
The scanner takes such a default for one without quotes, which ends at the first closing
bracket, and only then are its quotes seen. So it stands for the text between the quotes
exactly if no closing bracket is in that text.
-/

namespace ConfigNotation

open Text Pattern Grammar

namespace Placeholder

theorem unescape_of_not_mem {text : List Char} (h : '\\' ∉ text) : unescape text = text := by
  induction text with
  | nil => simp [unescape]
  | cons c rest ih =>
      rw [List.mem_cons, not_or] at h
      rw [unescape.eq_2, ih h.2]
      rintro _ _ rfl
      exact absurd rfl h.1

theorem betweenMarks?_marked (mark text : List Char) :
    betweenMarks? mark (mark ++ (text ++ mark)) = some text := by
  have hlength : 2 * mark.length ≤ (mark ++ (text ++ mark)).length := by
    simp only [List.length_append]
    omega
  have hprefix : mark.isPrefixOf (mark ++ (text ++ mark)) = true :=
    List.isPrefixOf_iff_prefix.2 (List.prefix_append _ _)
  have hsuffix : mark.isSuffixOf (mark ++ (text ++ mark)) = true :=
    List.isSuffixOf_iff_suffix.2 ((List.suffix_append _ _).trans (List.suffix_append _ _))
  have hsize : (mark ++ (text ++ mark)).length - 2 * mark.length = text.length := by
    simp only [List.length_append]
    omega
  rw [betweenMarks?, if_pos ⟨hlength, hprefix, hsuffix⟩, hsize, List.drop_left, List.take_left]

/-- A default between escaped quotes stands for what is between them. -/
theorem defaultText_quoted {text : List Char} (h : '\\' ∉ text) :
    defaultText ('\\' :: '"' :: (text ++ ['\\', '"'])) = text := by
  have htrim : Text.trim ('\\' :: '"' :: (text ++ ['\\', '"'])) =
      ['\\', '"'] ++ (text ++ ['\\', '"']) := by
    rw [Text.trim_cons (by decide), Text.trimEnd_cons (by decide)]
    have hend := Text.trimEnd_concat (c := '"') (by decide) (text ++ ['\\'])
    simpa using hend
  rw [defaultText, htrim, betweenMarks?_marked]
  exact unescape_of_not_mem h

/-- A default that only starts with an escaped quote is left as it is, without
the blanks at its end. -/
theorem defaultText_unclosed {text : List Char} (h : '"' ∉ text) :
    defaultText ('\\' :: '"' :: text) = '\\' :: '"' :: Text.trimEnd text := by
  have htrim : Text.trim ('\\' :: '"' :: text) = '\\' :: '"' :: Text.trimEnd text := by
    rw [Text.trim_cons (by decide), Text.trimEnd_cons (by decide)]
  have hopen : '"' ∉ Text.trimEnd text := fun hmem => h ((Text.trimEnd_isPrefix text).subset hmem)
  generalize Text.trimEnd text = rest at *
  have hescaped : betweenMarks? ['\\', '"'] ('\\' :: '"' :: rest) = none := by
    apply if_neg
    rintro ⟨hlength, -, hsuffix⟩
    rcases List.suffix_cons_iff.1 (List.isSuffixOf_iff_suffix.1 hsuffix) with heq | hbehind
    · cases heq
      exact absurd hlength (by decide)
    · rcases List.suffix_cons_iff.1 hbehind with heq | hinside
      · cases heq
      · exact hopen (hinside.subset (by decide))
  have hplain : betweenMarks? ['"'] ('\\' :: '"' :: rest) = none := by
    apply if_neg
    rintro ⟨-, hprefix, -⟩
    cases hprefix
  rw [defaultText, htrim, hescaped, hplain]
  simp [wordText]

/-- A placeholder whose default starts with an escaped quote, as a string holds
it. -/
def escapedQuoteText (path behind : List Char) : List Char :=
  '[' :: (path ++ ' ' :: '?' :: ' ' :: '\\' :: '"' :: behind)

section

variable {path default : List Char} {lookup : String → Option String} (hpath : IsPath path)
  (hnone : lookup (String.ofList path) = none)

include hpath hnone

/-- A default that starts with an escaped quote ends at the first closing
bracket. -/
theorem fill_escapedQuoteText {run : List Char} (hopen : ']' ∉ run) (rest : List Char) :
    (Template.piecesOf (escapedQuoteText path (run ++ ']' :: rest))).flatMap (·.fill lookup) =
      defaultText ('\\' :: '"' :: run) ++
        (Template.piecesOf rest).flatMap (·.fill lookup) := by
  have hgap : IsGap [' '] := List.forall_mem_singleton.2 rfl
  have hdefault : IsDefault [' '] ('\\' :: '"' :: run) rest := by
    refine .plain hgap nofun ?_ (by simpa using hopen) ?_
    · rintro _ ⟨⟩
      rfl
    · rintro _ after ⟨_⟩ heq
      cases heq
  have hstands := Stands.defaulted hpath hgap hdefault
  have htext : escapedQuoteText path (run ++ ']' :: rest) =
      '[' :: (path ++ ([' '] ++ '?' :: ([' '] ++ ('\\' :: '"' :: run ++ [']'])))) ++ rest := by
    simp [escapedQuoteText]
  rw [htext, Template.piecesOf_placeholder hstands, List.flatMap_cons, TemplatePiece.fill, hnone]
  rfl

/-- Such a placeholder with nothing for its path shows the text between the
quotes exactly if no closing bracket is in it. -/
theorem fill_quotedDefault_iff (hplain : ∀ c ∈ default, IsPlain c) :
    (Template.piecesOf (escapedQuoteText path (default ++ ['\\', '"', ']']))).flatMap
      (·.fill lookup) = default ↔ ']' ∉ default := by
  have hbackslash : '\\' ∉ default := fun hmem => (hplain _ hmem).2 rfl
  constructor
  · intro hsame hclosing
    obtain ⟨before, after, rfl, hopen⟩ := List.eq_append_cons_of_mem hclosing
    have hquote : '"' ∉ before := fun hmem => (hplain _ (List.mem_append_left _ hmem)).1 rfl
    have hshown := fill_escapedQuoteText hpath hnone hopen (after ++ ['\\', '"', ']'])
    rw [defaultText_unclosed hquote] at hshown
    rw [List.append_assoc, List.cons_append, hshown] at hsame
    apply hbackslash
    rw [← hsame]
    exact List.mem_cons_self
  · intro hopen
    have hrun : ']' ∉ default ++ ['\\', '"'] := by simpa using hopen
    have hshown := fill_escapedQuoteText hpath hnone hrun []
    rw [defaultText_quoted hbackslash] at hshown
    simpa [Template.piecesOf] using hshown

end

/-- The literal `"[path ? \"default\"]"`. -/
def quotedDefaultLiteral (path default : List Char) : List Char :=
  '"' :: (escapedQuoteText path (default ++ ['\\', '"', ']']) ++ ['"'])

theorem staysOpen_escapedQuoteText {path behind : List Char} (hpath : IsPath path)
    (hbehind : StaysOpen behind) : StaysOpen (escapedQuoteText path behind) := by
  have hmark : StaysOpen (' ' :: '?' :: ' ' :: '\\' :: '"' :: behind) :=
    .plain (by decide) (.plain (by decide) (.plain (by decide) (.pair (by decide) hbehind)))
  exact .plain (by decide) ((StaysOpen.of_plain hpath.isPlain).append hmark)

theorem isLexeme_quotedDefaultLiteral {path default : List Char} (hpath : IsPath path)
    (hdefault : ∀ c ∈ default, IsPlain c ∧ isLineBreak c = false) :
    IsLexeme Apart .string (quotedDefaultLiteral path default) := by
  have hopen : StaysOpen (default ++ ['\\', '"', ']']) :=
    (StaysOpen.of_plain fun c hc => (hdefault c hc).1).append
      (.pair (by decide) (.plain (by decide) .nil))
  refine (staysOpen_escapedQuoteText hpath hopen).isLexeme ?_
  have hdefaultReturn : '\r' ∉ default := by
    intro hmem
    cases (hdefault _ hmem).2
  simp [escapedQuoteText, hpath.return_not_mem, hdefaultReturn]

end Placeholder

open Placeholder

/-- The literal of a placeholder with a default in quotes is one string, and where
nothing is found for its path it evaluates to the text between the quotes exactly
if no closing bracket is in that text. -/
theorem quoted_default_exact_iff {path default : List Char} (hpath : IsPath path)
    (hdefault : ∀ c ∈ default, IsPlain c ∧ isLineBreak c = false) :
    (∃ lexed, lex (String.ofList (quotedDefaultLiteral path default)) = .ok lexed ∧
      lexed.tokens.map Token.tag =
        [(.string, String.ofList (quotedDefaultLiteral path default)), (.endOfInput, "")]) ∧
    ∀ (workspace : Workspace) (token : Token),
      token.tag = (.string, String.ofList (quotedDefaultLiteral path default)) →
      ∃ expr, (∀ found, IsExpr workspace [token] found ↔ found = expr) ∧
        ∀ (scope : Scope) (depth : Nat) (ambient : Ambient),
          scope.textAt? ambient (String.ofList path) = none →
          ((scope.eval (depth + 1) expr ambient).run =
            some (.ok (.string (String.ofList default))) ↔ ']' ∉ default) := by
  have hlexeme := isLexeme_quotedDefaultLiteral hpath hdefault
  constructor
  · have hspelled : Spelled True none [⟨[], .string, quotedDefaultLiteral path default⟩] :=
      .cons nofun hlexeme ⟨nofun, nofun⟩ .nil
    simpa [Word.tag] using hspelled.lex
  · intro workspace token htag
    obtain ⟨hkind, htext⟩ := Prod.mk.inj htag
    have hbody : token.body =
        String.ofList (escapedQuoteText path (default ++ ['\\', '"', ']'])) := by
      rw [Token.body, htext, String.toList_ofList, quotedDefaultLiteral, Text.unquoted_quotes]
    refine ⟨_, fun found => isExpr_string_iff hkind, ?_⟩
    intro scope depth ambient hnone
    have hiff := fill_quotedDefault_iff hpath hnone fun c hc => (hdefault c hc).1
    rw [scope.eval_string, hbody, Template.ofText, Template.fill, String.toList_ofList]
    simp only [Option.some.injEq, Except.ok.injEq, Value.string.injEq, String.ofList_inj]
    exact hiff

/-- The token of `"[a ? \"[x\"]"`. -/
def quotedDefault : Token :=
  ⟨.string, String.ofList (quotedDefaultLiteral ['a'] ['[', 'x']), ⟨0, 15⟩, ⟨1, 1⟩⟩

theorem quoted_default_exact_iff_opening :
    (IsPath ['a'] ∧ (∀ c ∈ ['[', 'x'], IsPlain c ∧ isLineBreak c = false)) ∧
    ∃ expr, IsExpr noFiles [quotedDefault] expr ∧
      (Scope.eval ⟨.empty, .empty, noFiles.files⟩ 1 expr .none).run =
        some (.ok (.string "[x")) := by
  have hpath : IsPath ['a'] := @IsPath.intro ['a'] [] rfl .nil
  have hdefault : ∀ c ∈ ['[', 'x'], IsPlain c ∧ isLineBreak c = false := by decide
  obtain ⟨-, hevaluates⟩ := quoted_default_exact_iff hpath hdefault
  obtain ⟨expr, hexpr, hvalue⟩ := hevaluates noFiles quotedDefault rfl
  have hnone : Scope.textAt? ⟨.empty, .empty, noFiles.files⟩ .none "a" = none := by decide +kernel
  exact ⟨⟨hpath, hdefault⟩, expr, (hexpr expr).2 rfl,
    (hvalue ⟨.empty, .empty, noFiles.files⟩ 0 .none hnone).2 (by decide)⟩

/-- With a closing bracket between the quotes the default ends there, and the
rest is text. -/
theorem quoted_default_cut_at_bracket :
    ∃ value, noFiles.evaluate? 3 "export \"[a ? \\\"x]y\\\"]\";" = some (.ok value) ∧
      value.text = "\\\"xy\"]" ∧ value ≠ .string "x]y" := by
  have hseen : (noFiles.evaluate? 3 "export \"[a ? \\\"x]y\\\"]\";").map
      (·.toOption.map Value.text) = some (some "\\\"xy\"]") := by decide +kernel
  obtain ⟨outcome, hvalue, hseen⟩ := Option.map_eq_some_iff.1 hseen
  cases outcome with
  | error => cases hseen
  | ok value =>
      have htext : value.text = "\\\"xy\"]" := Option.some.inj hseen
      refine ⟨value, hvalue, htext, ?_⟩
      rintro rfl
      exact absurd htext (by decide)

end ConfigNotation
