import ConfigNotation.Eval.Expr
import ConfigNotation.Proofs.Syntax.AliasEnd
import ConfigNotation.Proofs.Text.Escapes

/-!
A string as an expression and as a type. The expression stands for the text that the
template gives, and the type for the body as it is written; so the type accepts the value
of its own token exactly if no escape stands in the token.
-/

namespace ConfigNotation

open Grammar

section

variable {workspace : Workspace} {token : Token} {rest : List Token}

/-- What a single token is as an expression. -/
theorem Grammar.isExpr_singleton_iff {expr : Expr} :
    IsExpr workspace [token] expr ↔
      (∃ value, IsLiteral workspace token value ∧ expr = .literal token.span value) ∨
      (token.kind = .path ∧ expr = .path token.span (Parser.pathSegments token)) ∨
      (token.kind = .ident ∧ expr = .ident token.span token.text) := by
  constructor
  · intro h
    generalize htokens : [token] = tokens at h
    cases h with
    | conditional hleft _ hright =>
        obtain ⟨_, _, rfl, _⟩ := hleft.start
        obtain ⟨_, _, rfl, _⟩ := hright.start
        simp at htokens
    | operand hoperand =>
        cases hoperand with
        | literal hliteral =>
            cases htokens
            exact .inl ⟨_, hliteral, rfl⟩
        | path hpath =>
            cases htokens
            exact .inr (.inl ⟨hpath, rfl⟩)
        | name hname =>
            cases htokens
            exact .inr (.inr ⟨hname, rfl⟩)
        | container hbody =>
            cases hbody
            simp at htokens
        | call => cases htokens
        | classInstance _ hbody =>
            obtain ⟨_, _, rfl, _⟩ := hbody.start
            cases htokens
  · rintro (⟨value, hliteral, rfl⟩ | ⟨hpath, rfl⟩ | ⟨hname, rfl⟩)
    · exact .operand (.literal hliteral)
    · exact .operand (.path hpath)
    · exact .operand (.name hname)

theorem Grammar.isExpr_literal_iff {expr : Expr} (hkind : token.kind.isLiteral = true) :
    IsExpr workspace [token] expr ↔
      ∃ value, IsLiteral workspace token value ∧ expr = .literal token.span value := by
  have hpath : token.kind ≠ .path := by
    intro heq
    rw [heq] at hkind
    cases hkind
  have hname : token.kind ≠ .ident := by
    intro heq
    rw [heq] at hkind
    cases hkind
  simp only [isExpr_singleton_iff, hpath, hname, false_and, or_false]

/-- The body of a string token, as it is written between the quotes. -/
def Token.body (token : Token) : String := String.ofList (Text.unquoted token.text.toList)

theorem Grammar.isLiteral_string_iff {value : Literal} (hkind : token.kind = .string) :
    IsLiteral workspace token value ↔ value = .string token.body := by
  rw [← isLiteral_iff (by rw [hkind]; rfl), Literal.ofToken, hkind]
  simp only [Except.ok.injEq]
  exact eq_comm

theorem Grammar.isExpr_string_iff {expr : Expr} (hkind : token.kind = .string) :
    IsExpr workspace [token] expr ↔ expr = .literal token.span (.string token.body) := by
  rw [isExpr_literal_iff (by rw [hkind]; rfl)]
  simp only [isLiteral_string_iff hkind, exists_eq_left]

theorem Grammar.isType_string_iff {type : TypeExpr} (hkind : token.kind = .string) :
    IsType workspace (token :: rest) type ↔ rest = [] ∧ type = .literal token.body := by
  constructor
  · intro h
    cases h with
    | text => exact ⟨rfl, rfl⟩
    | name hname =>
        rw [hname] at hkind
        cases hkind
    | object hopening | array hopening | arrayOf hopening | tuple hopening =>
        rw [hopening] at hkind
        cases hkind
  · rintro ⟨rfl, rfl⟩
    exact .text hkind

/-- A string evaluates to its filled template, in every surrounding. -/
theorem Scope.eval_string (scope : Scope) (depth : Nat) (span : Span) (body : String)
    (ambient : Ambient) :
    (scope.eval (depth + 1) (.literal span (.string body)) ambient).run =
      some (.ok (.string ((Template.ofText body).fill (scope.textAt? ambient)))) :=
  rfl

theorem Value.check_literal (classes : ClassTable) (text body : String) (place : Place) :
    (Value.string text).check classes (.literal body) place =
      if text = body then .ok ()
      else .error (.raise (.literalMismatch place body (Value.string text).quotation)) := by
  rw [Value.check]

/-- A string token without placeholders is an expression and a type, and the
type accepts the value of the expression exactly if no escape stands in the
token. -/
theorem literal_type_accepts_iff (hkind : token.kind = .string)
    (hplain : (Template.ofText token.body).paths = []) :
    ∃ expr type, (∀ found, IsExpr workspace [token] found ↔ found = expr) ∧
      (∀ found, IsType workspace [token] found ↔ found = type) ∧
      ∀ (scope : Scope) (depth : Nat) (ambient : Ambient) (place : Place), ∃ value,
        (scope.eval (depth + 1) expr ambient).run = some (.ok value) ∧
        (¬Template.HasEscape token.body.toList →
          value.check scope.classes type place = .ok ()) ∧
        (Template.HasEscape token.body.toList →
          value.check scope.classes type place =
            .error (.raise (.literalMismatch place token.body value.quotation))) := by
  refine ⟨_, .literal token.body, fun _ => isExpr_string_iff hkind, fun _ => ?_, ?_⟩
  · rw [isType_string_iff hkind]
    exact and_iff_right rfl
  · intro scope depth ambient place
    refine ⟨_, scope.eval_string depth _ _ ambient, ?_, ?_⟩
    · intro hno
      rw [Value.check_literal, if_pos ((Template.fill_ofText_eq_iff hplain _).2 hno)]
    · intro hescape
      rw [Value.check_literal, if_neg]
      intro hsame
      exact (Template.fill_ofText_eq_iff hplain _).1 hsame hescape

end

/-- A string token without a backslash. -/
def plainString : Token := ⟨.string, "\"a b\"", ⟨0, 5⟩, ⟨1, 1⟩⟩

theorem literal_type_accepts_iff_plain :
    (plainString.kind = .string ∧ (Template.ofText plainString.body).paths = []) ∧
    ∃ expr type, (∀ found, IsExpr noFiles [plainString] found ↔ found = expr) ∧
      (∀ found, IsType noFiles [plainString] found ↔ found = type) ∧
      ∀ (scope : Scope) (depth : Nat) (ambient : Ambient) (place : Place), ∃ value,
        (scope.eval (depth + 1) expr ambient).run = some (.ok value) ∧
        value.check scope.classes type place = .ok () := by
  have hplain : (Template.ofText plainString.body).paths = [] := by decide +kernel
  have hescape : ¬Template.HasEscape plainString.body.toList := by
    rintro ⟨c, meaning, -, hinfix⟩
    have hmem : '\\' ∈ plainString.body.toList := hinfix.subset (List.mem_cons_self ..)
    exact absurd hmem (by decide)
  obtain ⟨expr, type, hexpr, htype, haccepts⟩ :=
    @literal_type_accepts_iff noFiles plainString rfl hplain
  refine ⟨⟨rfl, hplain⟩, expr, type, hexpr, htype, ?_⟩
  intro scope depth ambient place
  obtain ⟨value, hvalue, hok, -⟩ := haccepts scope depth ambient place
  exact ⟨value, hvalue, hok hescape⟩

/-- A string token for a letter and a line break. -/
def escapedString : Token := ⟨.string, "\"a\\n\"", ⟨0, 5⟩, ⟨1, 1⟩⟩

theorem literal_type_refuses_line_feed :
    escapedString.kind = .string ∧ (Template.ofText escapedString.body).paths = [] ∧
    ∃ expr type, IsExpr noFiles [escapedString] expr ∧ IsType noFiles [escapedString] type ∧
      ∀ (scope : Scope) (depth : Nat) (ambient : Ambient) (place : Place),
        (scope.eval (depth + 1) expr ambient).run = some (.ok (.string "a\n")) ∧
        (Value.string "a\n").check scope.classes type place ≠ .ok () := by
  refine ⟨rfl, by decide +kernel, _, _, (isExpr_string_iff rfl).2 rfl, .text rfl, ?_⟩
  intro scope depth ambient place
  have hpieces : (Template.ofText escapedString.body).pieces =
      [.plain 'a', .escape 'n' '\n'] := by decide +kernel
  constructor
  · rw [scope.eval_string, Template.fill, hpieces]
    rfl
  · rw [Value.check_literal, if_neg (by decide)]
    nofun

end ConfigNotation
