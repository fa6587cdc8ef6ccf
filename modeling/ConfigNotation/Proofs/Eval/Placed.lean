import ConfigNotation.Proofs.Eval.Fields
import ConfigNotation.Proofs.Eval.Raises
import ConfigNotation.Proofs.Eval.References
import ConfigNotation.Proofs.Eval.Runs

/-!
The places of what goes wrong in a text behind its parsing. The classes take their
defaults from their declarations, and imports, uses and classes give their own spans to
errors without a place; so every error starts where one of the tokens of the text starts.
-/

namespace ConfigNotation

open EvalError Grammar

namespace ClassTable

variable {classes : ClassTable} {decl : ClassDecl}

theorem baseOf_fails : Fails Unplaced (classes.baseOf decl) := by
  rw [baseOf]
  split
  · exact fails_ok _
  · split
    · exact fails_ok _
    · exact fails_raise _

theorem mixins_fails (names : List String) : Fails Unplaced (names.mapM classes.mixin) := by
  induction names with
  | nil => exact fails_ok _
  | cons name rest ih =>
      rw [List.mapM_cons]
      refine Fails.bind ?_ fun _ => ih.bind fun _ => fails_ok _
      rw [mixin]
      split
      · exact fails_ok _
      · exact fails_raise _

theorem register_fails : Fails Unplaced (classes.register decl) := by
  refine Fails.bind ?_ fun _ => fails_ok _
  exact baseOf_fails.bind fun _ => (mixins_fails decl.mixins).bind fun _ => fails_ok _

/-- Classes of which a name is not known are refused where they are declared;
the others take their defaults from the declarations. -/
theorem registerAll_spec {tokens : List Token} {decls : List ClassDecl}
    (hdecls : ∀ decl ∈ decls,
      StartsIn tokens decl.span ∧ ConfigNotation.DefaultsLieIn decl.fields tokens)
    (h : classes.DefaultsLieIn tokens) :
    match classes.registerAll decls with
    | .ok more => more.DefaultsLieIn tokens
    | .error error => error.Placed tokens := by
  induction decls generalizing classes with
  | nil => exact h
  | cons decl rest ih =>
      obtain ⟨⟨hspan, hdefaults⟩, hrest⟩ := List.forall_mem_cons.1 hdecls
      rw [registerAll_cons]
      cases hregister : classes.register decl with
      | error error => exact (register_fails error hregister).withinSome.placed hspan
      | ok next => exact ih hrest (FieldsAre.register h hdefaults hregister)

end ClassTable

section

variable {workspace : Workspace} {tokens : List Token} {session finish : Session}

theorem readText_fails (file : FileRef) : Fails Unplaced (workspace.readText file) := by
  have hraise {β : Type} (result : Except String β) (fault : String → EvalFault) :
      Fails Unplaced (result.mapError fun reason => .raise (fault reason)) := by
    cases result with
    | error reason => exact fails_raise _
    | ok value => exact fails_ok _
  refine (hraise _ _).bind fun bytes => Fails.bind ?_ fun _ => fails_ok _
  cases file.encoding.decode bytes with
  | error fault => exact fails_raise _
  | ok text => exact fails_ok _

/-- A file that cannot be loaded is an error without a place: that of the import
is not known to it, and that in the file belongs to another text. -/
theorem unplaced_of_load {depth : Nat} {file : FileRef} {error : EvalError}
    (h : (workspace.load depth file).run session = some (.error error, finish)) :
    error.Unplaced := by
  cases loads_of_run h with
  | cycle _ _ _ => exact unplaced_raise _
  | unread _ htext => exact readText_fails file error htext
  | failed _ _ _ => exact unplaced_raise _

theorem placed_of_bindImports {depth : Nat} {imports : List Import} {bindings : Record Value}
    {error : EvalError} (himports : ∀ statement ∈ imports, StartsIn tokens statement.span)
    (h : (Module.bindImports (workspace.load depth) bindings imports).run session =
      some (.error error, finish)) :
    error.Placed tokens := by
  induction imports generalizing bindings session with
  | nil => cases h
  | cons first rest ih =>
      obtain ⟨hfirst, hrest⟩ := List.forall_mem_cons.1 himports
      rw [bindImports_cons] at h
      rcases hload : (workspace.load depth first.source).run session with
        _ | ⟨inner | value, middle⟩
      · rw [hload] at h
        cases h
      · rw [hload] at h
        cases h
        exact (unplaced_of_load hload).withinSome.placed hfirst
      · rw [hload] at h
        exact ih hrest h

theorem Module.finish_raises {module : Module} {classes : ClassTable} (depth : Nat)
    (files : FileSystem) (hmodule : module.LiesIn tokens)
    (hclasses : classes.DefaultsLieIn tokens) (imported : Record Value) :
    Raises (Placed tokens) (module.finish depth files classes imported) := by
  have huses {uses : List Use} (h : ∀ statement ∈ uses,
      StartsIn tokens statement.span ∧ statement.value.LiesIn tokens) (bindings : Record Value) :
      Raises (Placed tokens) (bindUses (fun bindings => Scope.eval ⟨classes, bindings, files⟩ depth)
        bindings uses) := by
    induction uses generalizing bindings with
    | nil => exact .pure _
    | cons first rest ih =>
        obtain ⟨⟨hspan, hvalue⟩, hrest⟩ := List.forall_mem_cons.1 h
        have hfirst := Scope.eval_raises ⟨classes, bindings, files⟩ hclasses depth hvalue .none
        exact ((hfirst.imp fun _ h => h.withinSome).placed hspan).bind fun value => ih hrest _
  refine (huses hmodule.uses imported).bind fun bindings => ?_
  exact Scope.eval_raises ⟨classes, bindings, files⟩ hclasses depth hmodule.body .none

/-- What goes wrong when a text is evaluated: it has no tokens or is no module,
or there is an error in it that starts where one of its tokens starts. The end
of the input is no such token, as no part of a module starts there. -/
theorem Evaluates.failed {depth : Nat} {source : String} {failure : Failure}
    (h : Evaluates workspace depth source session (.error failure) finish) :
    workspace.parse source = .error failure ∨
      ∃ lexed module error span, workspace.parse source = .ok (lexed, module) ∧
        failure = .eval error ∧ error.span = some span ∧
        StartsIn (beforeEnd lexed.tokens) span ∧
        error.position = some (Position.ofOffset lexed.text.toList span.start).recorded := by
  -- an error with a place gets its position from the text
  have hlocated {lexed : Lexed} {module : Module} {error : EvalError}
      (hparse : workspace.parse source = .ok (lexed, module))
      (herror : error.Placed (beforeEnd lexed.tokens)) :
      ∃ found module other span, workspace.parse source = .ok (found, module) ∧
        Failure.eval (error.locate lexed.text) = .eval other ∧ other.span = some span ∧
        StartsIn (beforeEnd found.tokens) span ∧
        other.position = some (Position.ofOffset found.text.toList span.start).recorded := by
    obtain ⟨span, hspan, hstarts⟩ := herror.span
    refine ⟨lexed, module, _, span, hparse, rfl, hspan, hstarts, ?_⟩
    rw [EvalError.locate, herror.position, hspan]
    rfl
  have hmodule {lexed : Lexed} {module : Module}
      (hparse : workspace.parse source = .ok (lexed, module)) :
      module.LiesIn (beforeEnd lexed.tokens) :=
    (Module.ofTokens_eq_ok_iff.1 (Workspace.parse_eq_ok.1 hparse).2).formedIn.liesIn
  have hempty (tokens : List Token) : ClassTable.DefaultsLieIn .empty tokens := nofun
  have hregistered {lexed : Lexed} {module : Module}
      (hparse : workspace.parse source = .ok (lexed, module)) :=
    ClassTable.registerAll_spec (hmodule hparse).classes (hempty (beforeEnd lexed.tokens))
  generalize houtcome : (Except.error failure : Except Failure Value) = outcome at h
  cases h with
  | unparsed hparse =>
      cases houtcome
      exact .inl hparse
  | unregistered hparse hclasses =>
      cases houtcome
      have herror := hregistered hparse
      rw [hclasses] at herror
      exact .inr (hlocated hparse herror)
  | unbound hparse _ himports =>
      cases houtcome
      exact .inr (hlocated hparse (placed_of_bindImports (hmodule hparse).imports himports))
  | @finished lexed module classes bound result _ hparse hclasses _ hfinish =>
      cases result with
      | ok value => cases houtcome
      | error error =>
          cases houtcome
          have htable := hregistered hparse
          rw [hclasses] at htable
          exact .inr (hlocated hparse
            (Module.finish_raises depth workspace.files (hmodule hparse) htable bound _ hfinish))

end

end ConfigNotation
