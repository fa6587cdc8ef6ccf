import ConfigNotation.Proofs.Eval.SessionValue
import ConfigNotation.Proofs.File.Normal
import ConfigNotation.Proofs.Syntax.Modules

/-!
The references to files that the evaluation of a text can come to. Each of them has a
path in normal form, so that a path and an encoding are all there is to a reference.
-/

namespace ConfigNotation

open Grammar

theorem Grammar.IsImport.isNormal {aliasEnd : AliasEnd} {workspace : Workspace}
    {tokens : List Token} {statement : Import}
    (h : IsImport aliasEnd workspace tokens statement) :
    statement.source.path.IsNormal := by
  cases h with
  | binding _ hsource => exact hsource.path ▸ Path.isNormal_normalize _
  | pattern _ _ _ hsource => exact hsource.path ▸ Path.isNormal_normalize _

theorem Grammar.IsModule.isNormal {aliasEnd : AliasEnd} {workspace : Workspace}
    {tokens : List Token} {module : Module} (h : IsModule aliasEnd workspace tokens module) :
    ∀ statement ∈ module.imports, statement.source.path.IsNormal := by
  induction h with
  | exported => exact nofun
  | imported hfirst _ ih => exact List.forall_mem_cons.2 ⟨hfirst.isNormal, ih⟩
  | used _ _ ih | declared _ _ ih | loose _ _ _ ih => exact ih

namespace Workspace

variable {workspace : Workspace}

theorem parse_eq_ok {source : String} {lexed : Lexed} {module : Module} :
    workspace.parse source = .ok (lexed, module) ↔
      lex source = .ok lexed ∧ Module.ofTokens workspace lexed.tokens = .ok module := by
  unfold parse
  constructor
  · intro h
    cases hlex : lex source with
    | error error =>
        rw [hlex] at h
        cases h
    | ok found =>
        rw [hlex] at h
        dsimp only [Except.mapError, bind, Except.bind] at h
        cases hmodule : Module.ofTokens workspace found.tokens with
        | error error =>
            rw [hmodule] at h
            cases h
        | ok other =>
            rw [hmodule] at h
            cases h
            exact ⟨rfl, hmodule⟩
  · rintro ⟨hlex, hmodule⟩
    rw [hlex]
    dsimp only [Except.mapError, bind, Except.bind]
    rw [hmodule]
    rfl

/-- A text that is no module has no tokens, or tokens that form none. -/
theorem parse_eq_error {source : String} {failure : Failure} :
    workspace.parse source = .error failure ↔
      (∃ error, lex source = .error error ∧ failure = .lex error) ∨
      ∃ lexed error, lex source = .ok lexed ∧
        Module.ofTokens workspace lexed.tokens = .error error ∧ failure = .parse error := by
  unfold parse
  constructor
  · intro h
    cases hlex : lex source with
    | error error =>
        rw [hlex] at h
        cases h
        exact .inl ⟨error, rfl, rfl⟩
    | ok lexed =>
        rw [hlex] at h
        dsimp only [Except.mapError, bind, Except.bind] at h
        cases hmodule : Module.ofTokens workspace lexed.tokens with
        | error error =>
            rw [hmodule] at h
            cases h
            exact .inr ⟨lexed, error, rfl, hmodule, rfl⟩
        | ok module =>
            rw [hmodule] at h
            cases h
  · rintro (⟨error, hlex, rfl⟩ | ⟨lexed, error, hlex, hmodule, rfl⟩)
    · rw [hlex]
      rfl
    · rw [hlex]
      dsimp only [Except.mapError, bind, Except.bind]
      rw [hmodule]

/-- The files that a module imports are named by normal forms of paths. -/
theorem isNormal_of_parse {source : String} {lexed : Lexed} {module : Module}
    (hparse : workspace.parse source = .ok (lexed, module)) :
    ∀ statement ∈ module.imports, statement.source.path.IsNormal :=
  (Module.ofTokens_eq_ok_iff.1 (parse_eq_ok.1 hparse).2).isNormal

end Workspace

/-- A file that the evaluation of a text can import: one of its import
statements names it, or one in a file that it can import. -/
inductive MayImport (workspace : Workspace) (source : String) : FileRef → Prop where
  | statement {lexed : Lexed} {module : Module} {first : Import}
      (hparse : workspace.parse source = .ok (lexed, module)) (hfirst : first ∈ module.imports) :
      MayImport workspace source first.source
  | nested {file : FileRef} {module : Module} {first : Import}
      (hfile : MayImport workspace source file)
      (hmodule : workspace.moduleOf? file = some module) (hfirst : first ∈ module.imports) :
      MayImport workspace source first.source

theorem MayImport.isNormal {workspace : Workspace} {source : String} {file : FileRef}
    (h : MayImport workspace source file) :
    file.path.IsNormal := by
  cases h with
  | statement hparse hfirst => exact Workspace.isNormal_of_parse hparse _ hfirst
  | nested _ hmodule hfirst =>
      obtain ⟨_, _, _, hparse⟩ := moduleOf?_eq_some.1 hmodule
      exact Workspace.isNormal_of_parse hparse _ hfirst

end ConfigNotation
