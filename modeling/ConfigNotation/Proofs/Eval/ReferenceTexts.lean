import ConfigNotation.Proofs.Eval.Halting
import ConfigNotation.Proofs.Eval.Interpolation
import ConfigNotation.Proofs.Eval.LiteralTypes
import ConfigNotation.Proofs.Source.Quoted
import ConfigNotation.Proofs.Token.Names
import ConfigNotation.Proofs.Token.Strings

/-!
A reference reads the same by itself and between brackets in a string. The lexer and the
placeholders have one grammar of paths, and both ways come to the same value; the string shows
its text, or the reference as it was written if the value is null or undefined, or if there is
none.
-/

namespace ConfigNotation

open Pattern Grammar Placeholder

namespace Template

/-- A path between brackets is a placeholder and nothing else. -/
theorem pieces_bracketed {path : String} (h : IsPath path.toList) :
    (ofText ("[" ++ path ++ "]")).pieces =
      [.placeholder ⟨'[' :: (path.toList ++ [']']), path, none⟩] := by
  have hstands := Stands.bare h []
  rw [String.ofList_toList] at hstands
  have hsplits := Splits.placeholder hstands .nil
  rw [List.append_nil] at hsplits
  have htext : ("[" ++ path ++ "]").toList = '[' :: (path.toList ++ [']']) := by simp
  rw [ofText, htext]
  exact (splits_iff.1 hsplits).symm

theorem fill_bracketed {path : String} (h : IsPath path.toList) (lookup : String → Option String) :
    (ofText ("[" ++ path ++ "]")).fill lookup = (lookup path).getD ("[" ++ path ++ "]") := by
  rw [fill, pieces_bracketed h]
  simp only [List.flatMap_singleton, TemplatePiece.fill, Placeholder.fill]
  cases lookup path with
  | some text => exact String.ofList_toList
  | none => simp [String.append_assoc]

end Template

section

variable {workspace : Workspace} {token : Token} {expr : Expr}

theorem Grammar.isExpr_path_iff (hkind : token.kind = .path) :
    IsExpr workspace [token] expr ↔ expr = .path token.span (Parser.pathSegments token) := by
  rw [isExpr_singleton_iff, hkind]
  constructor
  · rintro (⟨_, hliteral, _⟩ | ⟨_, hexpr⟩ | ⟨hname, _⟩)
    · have hkinds := hliteral.isLiteral
      rw [hkind] at hkinds
      cases hkinds
    · exact hexpr
    · cases hname
  · exact fun hexpr => .inr (.inl ⟨rfl, hexpr⟩)

theorem Grammar.isExpr_name_iff (hkind : token.kind = .ident) :
    IsExpr workspace [token] expr ↔ expr = .ident token.span token.text := by
  rw [isExpr_singleton_iff, hkind]
  constructor
  · rintro (⟨_, hliteral, _⟩ | ⟨hpath, _⟩ | ⟨_, hexpr⟩)
    · have hkinds := hliteral.isLiteral
      rw [hkind] at hkinds
      cases hkinds
    · cases hpath
    · exact hexpr
  · exact fun hexpr => .inr (.inr ⟨rfl, hexpr⟩)

end

namespace Scope

variable (scope : Scope) (ambient : Ambient)

/-- A placeholder shows the value that the reference stands for. -/
theorem textAt?_eq_reference (path : String) :
    scope.textAt? ambient path =
      match (scope.reference ambient
          ((Text.splitOn '.' path.toList).map String.ofList)).run with
      | some (.ok value) => value.fillText?
      | _ => none := by
  unfold textAt?
  cases (Text.splitOn '.' path.toList).map String.ofList with
  | nil => rfl
  | cons name keys =>
      simp only [reference, root]
      cases scope.root? ambient name with
      | none => rfl
      | some value =>
          simp only [Value.follow, pure_bind]
          cases hfound : value.follow? keys with
          | none => simp [hfound, Value.fillText?, Value.isNullish]
          | some found => simp [hfound, Value.fillText?]

/-- A name by itself is a reference without keys, but for the two containers. -/
theorem named_eq_reference {name : String} (hmain : name ≠ "Main") (hthis : name ≠ "This") :
    scope.named ambient name = scope.reference ambient [name] := by
  rw [named, if_neg (by simp [hmain, hthis]), reference]
  simp only [Value.follow, Value.follow?, Option.getD_some, bind_pure]

end Scope

/-- A token that the lexer takes for a reference evaluates as the reference that
its segments are, wherever it is an expression by itself. -/
theorem Token.IsMatched.reference_expr {token : Token} (h : token.IsMatched)
    (hkind : token.kind = .path ∨ token.kind = .ident) (hmain : token.text ≠ "Main")
    (hthis : token.text ≠ "This") (workspace : Workspace) :
    ∃ expr, (∀ found, IsExpr workspace [token] found ↔ found = expr) ∧
      ∀ (scope : Scope) (depth : Nat) (ambient : Ambient),
        scope.eval (depth + 1) expr ambient =
          (scope.reference ambient (Parser.pathSegments token)).within expr.span := by
  rcases hkind with hpath | hname
  · exact ⟨_, fun _ => isExpr_path_iff hpath, fun _ _ _ => rfl⟩
  · refine ⟨_, fun _ => isExpr_name_iff hname, fun scope depth ambient => ?_⟩
    have hidentifier := h.isIdentifier_text hname
    have hsegments : Parser.pathSegments token = [token.text] := by
      rw [Parser.pathSegments,
        Text.splitOn_of_not_mem (IsSegment.point_not_mem (.inl hidentifier)), List.map_singleton,
        String.ofList_toList]
    rw [hsegments, ← scope.named_eq_reference ambient hmain hthis]
    rfl

/-- The literal `"[path]"`. -/
def bracketLiteral (path : String) : String := "\"" ++ ("[" ++ path ++ "]") ++ "\""

theorem toList_bracketLiteral (path : String) :
    (bracketLiteral path).toList = '"' :: ('[' :: (path.toList ++ [']']) ++ ['"']) := by
  simp [bracketLiteral]

theorem isLexeme_bracketLiteral {path : String} (hpath : IsPath path.toList) :
    IsLexeme Apart .string (bracketLiteral path).toList := by
  have hplain : ∀ c ∈ '[' :: (path.toList ++ [']']), IsPlain c := by
    intro c hc
    rw [List.mem_cons, List.mem_append, List.mem_singleton] at hc
    rcases hc with rfl | hc | rfl
    · decide
    · exact hpath.isPlain c hc
    · decide
  rw [toList_bracketLiteral]
  refine (StaysOpen.of_plain hplain).isLexeme ?_
  simp [hpath.return_not_mem]

theorem body_bracketLiteral {token : Token} {path : String} (h : token.text = bracketLiteral path) :
    token.body = "[" ++ path ++ "]" := by
  rw [Token.body, h, toList_bracketLiteral, Text.unquoted_quotes]
  apply String.toList_inj.1
  simp

/-- A reference that the lexer takes from a source reads the same between
brackets in a string: the string shows the text of its value, or the reference
itself if it has no value or one that is null or undefined. -/
theorem reference_reads_alike {source : String} {lexed : Lexed} {token : Token}
    (hlex : lex source = .ok lexed) (hmem : token ∈ lexed.tokens)
    (hkind : token.kind = .path ∨ token.kind = .ident) (hmain : token.text ≠ "Main")
    (hthis : token.text ≠ "This") :
    (∃ quoted, lex (bracketLiteral token.text) = .ok quoted ∧
      quoted.tokens.map Token.tag =
        [(.string, bracketLiteral token.text), (.endOfInput, "")]) ∧
    ∀ (workspace : Workspace) (quoted : Token),
      quoted.tag = (.string, bracketLiteral token.text) →
      ∃ reference literal, (∀ found, IsExpr workspace [token] found ↔ found = reference) ∧
        (∀ found, IsExpr workspace [quoted] found ↔ found = literal) ∧
        ∀ (scope : Scope) (depth : Nat) (ambient : Ambient), ∃ outcome,
          (scope.eval (depth + 1) reference ambient).run = some outcome ∧
          (∀ value, outcome = .ok value → value.isNullish = false →
            (scope.eval (depth + 1) literal ambient).run = some (.ok (.string value.text))) ∧
          ((∀ value, outcome = .ok value → value.isNullish = true) →
            (scope.eval (depth + 1) literal ambient).run =
              some (.ok (.string ("[" ++ token.text ++ "]")))) := by
  have hmatched : token.IsMatched := by
    refine lex_matched hlex token hmem ?_
    rcases hkind with heq | heq <;> simp [heq]
  have hpath := hmatched.isPath_text hkind
  constructor
  · have hspelled : Spelled True none [⟨[], .string, (bracketLiteral token.text).toList⟩] :=
      .cons nofun (isLexeme_bracketLiteral hpath) ⟨nofun, nofun⟩ .nil
    simpa [Word.tag] using hspelled.lex
  · intro workspace quoted htag
    obtain ⟨hstring, htext⟩ := Prod.mk.inj htag
    obtain ⟨reference, hreference, hvalue⟩ :=
      hmatched.reference_expr hkind hmain hthis workspace
    refine ⟨reference, _, hreference, fun _ => isExpr_string_iff hstring, ?_⟩
    intro scope depth ambient
    obtain ⟨outcome, hrun⟩ :=
      Option.isSome_iff_exists.1 (scope.reference_run_isSome ambient (Parser.pathSegments token))
    have hshown := Template.fill_bracketed hpath (scope.textAt? ambient)
    rw [scope.textAt?_eq_reference, ← Parser.pathSegments, hrun] at hshown
    refine ⟨outcome.mapError (·.within reference.span), ?_, ?_, ?_⟩
    · rw [hvalue]
      exact Option.map_eq_some_iff.2 ⟨outcome, hrun, rfl⟩
    · intro value hok hnullish
      cases outcome with
      | error error => cases hok
      | ok found =>
          cases hok
          rw [scope.eval_string, body_bracketLiteral htext, hshown]
          simp [Value.fillText?, hnullish]
    · intro hnullish
      rw [scope.eval_string, body_bracketLiteral htext, hshown]
      cases outcome with
      | error error => rfl
      | ok found => simp [Value.fillText?, hnullish found rfl]

/-- The token of a path in `export items.0;`. -/
def itemToken : Token := ⟨.path, "items.0", ⟨7, 14⟩, ⟨1, 8⟩⟩

def itemTokens : List Token :=
  [⟨.exportWord, "export", ⟨0, 6⟩, ⟨1, 1⟩⟩, itemToken, ⟨.semicolon, ";", ⟨14, 15⟩, ⟨1, 15⟩⟩,
    ⟨.endOfInput, "", ⟨15, 15⟩, ⟨1, 16⟩⟩]

/-- Where `items` is an array with the text `x`. -/
def itemScope : Scope :=
  ⟨.empty, Record.empty.insert "items" (.array [.string "x"]), noFiles.files⟩

theorem reference_reads_alike_item :
    ∃ lexed, lex "export items.0;" = .ok lexed ∧ itemToken ∈ lexed.tokens ∧
      ∃ reference literal, IsExpr noFiles [itemToken] reference ∧
        IsExpr noFiles [⟨.string, bracketLiteral "items.0", ⟨0, 11⟩, ⟨1, 1⟩⟩] literal ∧
        (itemScope.eval 1 reference .none).run = some (.ok (.string "x")) ∧
        (itemScope.eval 1 literal .none).run = some (.ok (.string "x")) := by
  have hlex : lex "export items.0;" = .ok ⟨"export items.0;", itemTokens⟩ :=
    lex_eq_ok (by decide +kernel)
  have hmem : itemToken ∈ itemTokens := by decide
  obtain ⟨-, hreads⟩ := reference_reads_alike hlex hmem (.inl rfl) (by decide) (by decide)
  obtain ⟨reference, literal, hreference, hliteral, hvalues⟩ := hreads noFiles
    ⟨.string, bracketLiteral "items.0", ⟨0, 11⟩, ⟨1, 1⟩⟩ rfl
  obtain ⟨outcome, hrun, hshown, -⟩ := hvalues itemScope 0 .none
  have hexpr := (hreference reference).2 rfl
  obtain rfl := (isExpr_path_iff rfl).1 hexpr
  have hvalue : (itemScope.eval 1 (.path itemToken.span (Parser.pathSegments itemToken)) .none).run =
      some (.ok (.string "x")) := rfl
  refine ⟨_, hlex, hmem, _, literal, hexpr, (hliteral literal).2 rfl, hvalue, ?_⟩
  cases hrun.symm.trans hvalue
  exact hshown _ rfl rfl

end ConfigNotation
