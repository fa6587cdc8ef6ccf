import ConfigNotation.Proofs.Eval.References
import ConfigNotation.Proofs.Source.Declarations

/-!
A container that is written as a module is the value of that module again. Its words are
the tokens, the tokens are read as statements, and the exported expression has the value
in the scope that the statements give.
-/

namespace ConfigNotation

open ConfigNotation.Parser Source

/-- A module without imports has a value, whatever files there are. -/
structure Module.Exports (module : Module) (value : Value) : Prop where
  imports : module.imports = []
  value : ∀ files, ∃ classes depth,
    ClassTable.registerAll .empty module.classes = .ok classes ∧
      (module.finish depth files classes .empty).run = some (.ok value)

theorem Module.exports_body {body : Expr} {value : Value} (hbody : body.Means value)
    (hplain : value.holdsEmptyArray = false) :
    Exports ⟨[], [], [], body⟩ value.readBack where
  imports := rfl
  value files := by
    obtain ⟨depth, hdepth⟩ := hbody ⟨.empty, .empty, files⟩ (by simp [hplain])
    exact ⟨.empty, depth, rfl, hdepth .none⟩

theorem Module.exports_declared {body : Expr} {value : Value} (hbody : body.Means value)
    (name field declaration call use : Span) :
    Exports ⟨[], [emptyUse call use], [emptyListDecl name field declaration], body⟩
      value.readBack where
  imports := rfl
  value files := by
    obtain ⟨first, hfirst⟩ := yields_emptyCall name field call files
    obtain ⟨second, hsecond⟩ := hbody (emptyScope name field files)
      fun _ => emptyScope_bindsEmptyArray name field files
    have hcall := Scope.eval_extends _ (Nat.le_max_left first second) _ .none _ (hfirst .none)
    have hvalue := Scope.eval_extends _ (Nat.le_max_right first second) _ .none _
      (hsecond .none)
    refine ⟨(emptyListScope name field files).classes, max first second, rfl, ?_⟩
    rw [finish, Evaluation.run_bind_eq_some]
    refine .inr ⟨(emptyScope name field files).bindings, ?_, hvalue⟩
    rw [emptyUse, bindUses, Evaluation.run_bind_eq_some]
    refine .inr ⟨_, ?_, rfl⟩
    rw [Evaluation.within, ExceptT.run_mk]
    exact congrArg _ hcall

variable (workspace : Workspace) {verbatim : Prop} {cursor : Cursor} {value : Value}

theorem exportStatement_reads (h : value.Keyed (Value.IsLegible verbatim)) (indent : Nat)
    (gap : List Char)
    (htags : cursor.tags = (exportWords indent gap value).map Word.tag ++ [(.endOfInput, "")]) :
    ∃ body, exportStatement workspace cursor = .ok body ∧ body.Means value := by
  have hwords : cursor.tags = (.exportWord, "export") ::
      ((valueWords indent 0 [' '] value).map Word.tag ++
        (.semicolon, ";") :: [(.endOfInput, "")]) := by
    rw [htags]
    simp [exportWords, Word.tag]
  obtain ⟨mark, hexport, hmarkTags, _⟩ := expect_reads hwords (by simp)
  obtain ⟨body, hbody, hbodyTags, hmeans⟩ :=
    Reads.thenRead mark (expr workspace) (expr_reads (operand_value h indent 0 _ hmarkTags))
  obtain ⟨finish, hsemicolon, hrest, _⟩ :=
    Reads.thenRead body (·.expect .semicolon) (expect_reads hbodyTags (by simp))
  have hend : finish.after.kind = .endOfInput := Cursor.kind_of_tags hrest
  refine ⟨body.value, ?_, hmeans⟩
  simp only [exportStatement, inContext, hexport, bind, Except.bind, hbody, hsemicolon]
  exact if_pos hend

theorem statements_export (h : value.Keyed (Value.IsLegible verbatim)) (indent : Nat)
    (gap : List Char)
    (htags : cursor.tags = (exportWords indent gap value).map Word.tag ++ [(.endOfInput, "")]) :
    ∃ body, statements workspace cursor = .ok ⟨[], [], [], body⟩ ∧ body.Means value := by
  obtain ⟨body, hbody, hmeans⟩ := exportStatement_reads workspace h indent gap htags
  have hkind : cursor.kind = .exportWord := Cursor.kind_of_tags htags
  refine ⟨body, ?_, hmeans⟩
  rw [statements, hkind]
  dsimp only
  rw [hbody]
  rfl

theorem tags_declarationWords (indent : Nat) (rest : List Tag) :
    (declarationWords indent).map Word.tag ++ rest =
      (.classWord, "class") :: (.ident, "EmptyList") :: (.leftParen, "(") :: (.spread, "...") ::
      (.ident, "items") :: (.rightParen, ")") :: (.leftBracket, "[") :: (.assocKey, "@items") ::
      (.arrow, "=>") :: (.ident, "items") :: (.semicolon, ";") :: (.rightBracket, "]") ::
      (.semicolon, ";") :: (.useWord, "use") :: (.ident, "EmptyList") :: (.leftParen, "(") ::
      (.rightParen, ")") :: (.asWord, "as") :: (.ident, "empty") :: (.semicolon, ";") :: rest := by
  rfl

/-- The tokens of a written module are read as a module that exports the
value. -/
theorem statements_of_legible (h : value.Keyed (Value.IsLegible verbatim)) (indent : Nat)
    (htags : cursor.tags = (moduleWords indent value).map Word.tag ++ [(.endOfInput, "")]) :
    ∃ module, statements workspace cursor = .ok module ∧ module.Exports value.readBack := by
  cases hempty : value.holdsEmptyArray with
  | false =>
      rw [moduleWords, if_neg (by simp [hempty])] at htags
      obtain ⟨body, hbody, hmeans⟩ := statements_export workspace h indent [] htags
      exact ⟨_, hbody, Module.exports_body hmeans hempty⟩
  | true =>
      rw [moduleWords, if_pos hempty, List.map_append, List.append_assoc,
        tags_declarationWords] at htags
      obtain ⟨⟨_, afterClass, hclass⟩, hdecl, hclassTags, name, field, declaration, rfl⟩ :=
        classDecl_reads workspace htags
      obtain ⟨⟨_, afterUse, huse⟩, hused, huseTags, call, use, rfl⟩ :=
        useStatement_reads workspace hclassTags
      obtain ⟨body, hbody, hmeans⟩ :=
        statements_export workspace h indent _ huseTags
      have hclassKind : cursor.kind = .classWord := Cursor.kind_of_tags htags
      have huseKind : afterClass.kind = .useWord := Cursor.kind_of_tags hclassTags
      have hrest : statements workspace afterClass =
          .ok ⟨[], [emptyUse call use], [], body⟩ := by
        rw [statements, huseKind]
        dsimp only
        rw [hused]
        dsimp only [bind, Except.bind]
        rw [hbody]
        rfl
      refine ⟨_, ?_, Module.exports_declared hmeans name field declaration call use⟩
      rw [statements, hclassKind]
      dsimp only
      rw [hdecl]
      dsimp only [bind, Except.bind]
      rw [hrest]
      rfl

/-- What is written is read as a module that exports the value, if nothing in it
is taken for a comment. -/
theorem Workspace.parse_of_kept (h : value.Keyed (Value.IsLegible verbatim)) (indent : Nat)
    (hkept : Text.stripComments (Word.spell (moduleWords indent value)) =
      .ok (Word.spell (moduleWords indent value))) :
    ∃ lexed module, workspace.parse (String.ofList (Word.spell (moduleWords indent value))) =
      .ok (lexed, module) ∧ module.Exports value.readBack := by
  obtain ⟨lexed, hlex, htags⟩ := (spelled_of_legible h indent).lex_of_kept hkept
  obtain ⟨module, hmodule, hexports⟩ :=
    statements_of_legible workspace h indent (show (Cursor.start lexed.tokens).tags = _ from htags)
  exact ⟨lexed, module, parse_eq_ok.2 ⟨hlex, hmodule⟩, hexports⟩

theorem statements_module (h : value.Writable) (indent : Nat)
    (htags : cursor.tags = (moduleWords indent value).map Word.tag ++ [(.endOfInput, "")]) :
    ∃ module, statements workspace cursor = .ok module ∧ module.Exports value.readBack :=
  statements_of_legible workspace (h.keyed True) indent htags

/-- A text whose module has a value is evaluated to it by every depth from some
on. -/
theorem Workspace.evaluate?_of_exports {source : String} {lexed : Lexed} {module : Module}
    (hparse : workspace.parse source = .ok (lexed, module)) (h : module.Exports value) :
    ∃ least, ∀ depth, least ≤ depth → workspace.evaluate? depth source = some (.ok value) := by
  obtain ⟨classes, enough, hclasses, hfinish⟩ := h.value workspace.files
  refine ⟨enough + 1, ?_⟩
  intro depth hdepth
  obtain ⟨depth, rfl⟩ : ∃ less, depth = less + 1 := ⟨depth - 1, by omega⟩
  have hvalue := module.finish_extends (Nat.le_of_succ_le_succ hdepth) workspace.files classes
    .empty _ hfinish
  have himports : (Module.bindImports (workspace.load depth) .empty module.imports).run
      (.start .empty) = some (.ok .empty, .start .empty) := by
    rw [h.imports]
    rfl
  rw [evaluate?, evaluateText_ok hparse hclasses himports hvalue]
  rfl

/-- A record or an array is written for every indentation, if its keys are
identifiers and no dates and regular expressions are in it. The text is a module
that has the same value again in every workspace, up to the sign of zero and to
buffers, which come back as the strings of their texts. -/
theorem Value.source_round_trip {value : Value} (hcontainer : value.isContainer = true)
    (h : value.Writable) (indent : Nat) :
    ∃ text, value.source none indent = .ok text ∧ ∀ workspace : Workspace,
      ∃ least, ∀ depth, least ≤ depth →
        workspace.evaluate? depth text = some (.ok value.readBack) := by
  refine ⟨_, source_eq_spell hcontainer h indent, ?_⟩
  intro workspace
  obtain ⟨lexed, hlex, htags⟩ := (spelled_moduleWords h indent).lex
  obtain ⟨module, hmodule, hexports⟩ :=
    statements_module workspace h indent (show (Cursor.start lexed.tokens).tags = _ from htags)
  have hread : Module.ofTokens workspace lexed.tokens = .ok module := hmodule
  have hparse : workspace.parse (String.ofList (Word.spell (moduleWords indent value))) =
      .ok (lexed, module) := by
    simp only [Workspace.parse, hlex, Except.mapError, bind, Except.bind, hread]
    rfl
  exact workspace.evaluate?_of_exports hparse hexports

/-- A record with an empty array, a zero with a sign and marks of other things
in a text. -/
def Value.marks : Value :=
  object ⟨[("none", array []), ("zero", number (.finite true .zero)),
    ("text", string "[a] 'b' \"c\" #d\n"),
    ("more", array [object ⟨[]⟩, buffer ⟨.ascii, [104, 105]⟩])]⟩

theorem Value.source_round_trip_marks :
    marks.isContainer = true ∧ marks.Writable ∧
      ∃ text, marks.source none 2 = .ok text ∧ ∀ workspace : Workspace,
        ∃ least, ∀ depth, least ≤ depth → workspace.evaluate? depth text = some (.ok
          (object ⟨[("none", array []), ("zero", number (.finite false .zero)),
            ("text", string "[a] 'b' \"c\" #d\n"),
            ("more", array [object ⟨[]⟩, string "hi"])]⟩)) := by
  have hwritable : marks.Writable := by
    simp only [marks, Writable, EntriesWritable, ItemsWritable]
    decide
  exact ⟨rfl, hwritable, source_round_trip rfl hwritable 2⟩

end ConfigNotation
