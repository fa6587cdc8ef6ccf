import ConfigNotation.Proofs.Eval.LoadEffect

/-!
What the evaluation of a text comes to, by the stage at which it ends. A text or a load
that has an outcome keeps it, and leaves the same session behind, when more depth is
allowed.
-/

namespace ConfigNotation

namespace Loading

variable {ε δ α β : Type}

/-- One step has the outcome of another one in every session in which that has
any, and leaves the same session. -/
def Extends (more less : Loading ε α) : Prop :=
  ∀ session result, less.run session = some result → more.run session = some result

theorem Extends.refl (loading : Loading ε α) : loading.Extends loading := fun _ _ h => h

theorem Extends.bind {more less : Loading ε α} {moreNext lessNext : α → Loading ε β}
    (hfirst : more.Extends less) (hnext : ∀ value, (moreNext value).Extends (lessNext value)) :
    (more >>= moreNext).Extends (less >>= lessNext) := by
  intro session result h
  rw [run_bind] at h ⊢
  cases hrun : less.run session with
  | none =>
      rw [hrun] at h
      cases h
  | some found =>
      rw [hfirst session found hrun]
      rw [hrun] at h
      obtain ⟨error | value, middle⟩ := found
      · exact h
      · exact hnext value middle result h

theorem Extends.adapt {more less : Loading ε α} (f : ε → δ) (h : more.Extends less) :
    Extends (more.adapt f : Loading δ α) (less.adapt f : Loading δ α) := by
  intro session result hrun
  rw [run_adapt] at hrun ⊢
  obtain ⟨found, hfound, rfl⟩ := Option.map_eq_some_iff.1 hrun
  rw [h session found hfound]
  rfl

end Loading

open Loading

section

variable {workspace : Workspace} {session finish : Session}

/-- What the evaluation of a text comes to if imports and expressions are nested
to less than a depth. -/
inductive Evaluates (workspace : Workspace) (depth : Nat) (source : String) (session : Session) :
    Except Failure Value → Session → Prop where
  | unparsed {failure : Failure} (hparse : workspace.parse source = .error failure) :
      Evaluates workspace depth source session (.error failure) session
  | unregistered {lexed : Lexed} {module : Module} {error : EvalError}
      (hparse : workspace.parse source = .ok (lexed, module))
      (hclasses : ClassTable.registerAll .empty module.classes = .error error) :
      Evaluates workspace depth source session (.error (.eval (error.locate lexed.text))) session
  | unbound {lexed : Lexed} {module : Module} {classes : ClassTable} {error : EvalError}
      {finish : Session} (hparse : workspace.parse source = .ok (lexed, module))
      (hclasses : ClassTable.registerAll .empty module.classes = .ok classes)
      (himports : (Module.bindImports (workspace.load depth) .empty module.imports).run session =
        some (.error error, finish)) :
      Evaluates workspace depth source session (.error (.eval (error.locate lexed.text))) finish
  | finished {lexed : Lexed} {module : Module} {classes : ClassTable} {bound : Record Value}
      {result : Except EvalError Value} {finish : Session}
      (hparse : workspace.parse source = .ok (lexed, module))
      (hclasses : ClassTable.registerAll .empty module.classes = .ok classes)
      (himports : (Module.bindImports (workspace.load depth) .empty module.imports).run session =
        some (.ok bound, finish))
      (hfinish : (module.finish depth workspace.files classes bound).run = some result) :
      Evaluates workspace depth source session (Workspace.located lexed.text result) finish

/-- What the evaluation of a text did can be told from its result. -/
theorem evaluates_of_run {depth : Nat} {source : String} {outcome : Except Failure Value}
    (h : (workspace.evaluateText (depth + 1) source).run session = some (outcome, finish)) :
    Evaluates workspace depth source session outcome finish := by
  have hload : workspace.loadWith (workspace.evaluateText depth) = workspace.load depth := rfl
  rw [Workspace.evaluateText_run, hload] at h
  cases hparse : workspace.parse source with
  | error failure =>
      rw [hparse] at h
      cases h
      exact .unparsed hparse
  | ok parsed =>
      obtain ⟨lexed, module⟩ := parsed
      rw [hparse] at h
      obtain ⟨⟨result, last⟩, hmodule, heq⟩ := Option.map_eq_some_iff.1 h
      cases heq
      rw [Module.evaluate_run] at hmodule
      cases hclasses : ClassTable.registerAll .empty module.classes with
      | error error =>
          rw [hclasses] at hmodule
          cases hmodule
          exact .unregistered hparse hclasses
      | ok classes =>
          rw [hclasses] at hmodule
          dsimp only at hmodule
          cases himports : (Module.bindImports (workspace.load depth) .empty module.imports).run
              session with
          | none =>
              rw [himports] at hmodule
              cases hmodule
          | some imported =>
              obtain ⟨error | bound, middle⟩ := imported
              · rw [himports] at hmodule
                cases hmodule
                exact .unbound hparse hclasses himports
              · rw [himports] at hmodule
                obtain ⟨found, hfinish, heq⟩ := Option.map_eq_some_iff.1 hmodule
                cases heq
                exact .finished hparse hclasses himports hfinish

theorem run_of_evaluates {depth : Nat} {source : String} {outcome : Except Failure Value}
    (h : Evaluates workspace depth source session outcome finish) :
    (workspace.evaluateText (depth + 1) source).run session = some (outcome, finish) := by
  have hload : workspace.loadWith (workspace.evaluateText depth) = workspace.load depth := rfl
  rw [Workspace.evaluateText_run, hload]
  cases h with
  | unparsed hparse => rw [hparse]
  | unregistered hparse hclasses =>
      rw [hparse]
      dsimp only
      rw [Module.evaluate_run, hclasses]
      rfl
  | unbound hparse hclasses himports =>
      rw [hparse]
      dsimp only
      rw [Module.evaluate_run, hclasses]
      dsimp only
      rw [himports]
      rfl
  | finished hparse hclasses himports hfinish =>
      rw [hparse]
      dsimp only
      rw [Module.evaluate_run, hclasses]
      dsimp only
      rw [himports]
      dsimp only
      rw [hfinish]
      rfl

/-- The relation describes exactly the runs of evaluation, failures with what
they leave of the session included. -/
theorem evaluates_iff_run {depth : Nat} {source : String} {outcome : Except Failure Value} :
    (workspace.evaluateText (depth + 1) source).run session = some (outcome, finish) ↔
      Evaluates workspace depth source session outcome finish :=
  ⟨evaluates_of_run, run_of_evaluates⟩

theorem run_of_loads {evaluate : String → Loading Failure Value} {file : FileRef}
    {outcome : Except EvalError Value} (h : Loads workspace evaluate file session outcome finish) :
    (workspace.loadWith evaluate file).run session = some (outcome, finish) := by
  have hclosed (hlacks : session.Lacks file.path) :
      session.opened.any (·.same file.path) = false := by
    rw [List.any_eq_false]
    intro other hother hsame
    exact hlacks.closed other hother (by simpa [Path.same] using hsame)
  rw [Workspace.loadWith_run]
  cases h with
  | cached hcached => rw [hcached]
  | cycle hnew hopened hsame =>
      have hany : session.opened.any (·.same file.path) = true :=
        List.any_eq_true.2 ⟨_, hopened, by simpa [Path.same] using hsame⟩
      rw [hnew]
      dsimp only
      rw [if_pos hany]
  | unread hlacks htext =>
      rw [hlacks.new]
      dsimp only
      rw [hclosed hlacks, htext]
      rfl
  | failed hlacks htext hrun | loaded hlacks htext hrun =>
      rw [Session.entered] at hrun
      rw [hlacks.new]
      dsimp only
      rw [hclosed hlacks, htext]
      dsimp only
      rw [hrun]
      rfl

theorem bindImports_cons (load : FileRef → Loading EvalError Value) (bindings : Record Value)
    (first : Import) (rest : List Import) (session : Session) :
    (Module.bindImports load bindings (first :: rest)).run session =
      match (load first.source).run session with
      | none => none
      | some (.error error, middle) => some (.error (error.within first.span), middle)
      | some (.ok value, middle) =>
          (Module.bindImports load (first.binding.bind bindings value) rest).run middle := by
  rw [Module.bindImports, Loading.run_bind, Loading.within, Loading.run_adapt]
  rcases (load first.source).run session with _ | ⟨error | value, middle⟩ <;> rfl

/-- Binding imports keeps its outcome if the loading of each file does. -/
theorem bindImports_extends {more less : FileRef → Loading EvalError Value}
    (h : ∀ file, (more file).Extends (less file)) (bindings : Record Value)
    (imports : List Import) :
    (Module.bindImports more bindings imports).Extends
      (Module.bindImports less bindings imports) := by
  induction imports generalizing bindings with
  | nil => exact .refl _
  | cons first rest ih => exact ((h first.source).adapt _).bind fun value => ih _

theorem loadWith_extends {more less : String → Loading Failure Value}
    (h : ∀ text, (more text).Extends (less text)) (file : FileRef) :
    (workspace.loadWith more file).Extends (workspace.loadWith less file) := by
  rintro session ⟨outcome, finish⟩ hrun
  apply run_of_loads
  cases loads_of_run hrun with
  | cached hcached => exact .cached hcached
  | cycle hnew hopened hsame => exact .cycle hnew hopened hsame
  | unread hlacks htext => exact .unread hlacks htext
  | failed hlacks htext hinner => exact .failed hlacks htext (h _ _ _ hinner)
  | loaded hlacks htext hinner => exact .loaded hlacks htext (h _ _ _ hinner)

/-- A text keeps its outcome with more depth, and the session that it leaves as
well. The induction also carries the loading of files. -/
theorem evaluateText_extends (workspace : Workspace) {depth more : Nat} (h : depth ≤ more)
    (source : String) :
    (workspace.evaluateText more source).Extends (workspace.evaluateText depth source) := by
  induction depth generalizing more source with
  | zero => exact fun _ _ hrun => nomatch hrun
  | succ depth ih =>
      obtain ⟨more, rfl⟩ : ∃ less, more = less + 1 := ⟨more - 1, by omega⟩
      have hless : depth ≤ more := Nat.le_of_succ_le_succ h
      have hload (file : FileRef) :
          (workspace.load more file).Extends (workspace.load depth file) :=
        loadWith_extends (fun text => ih hless text) file
      rintro session ⟨outcome, finish⟩ hrun
      apply evaluates_iff_run.2
      cases evaluates_iff_run.1 hrun with
      | unparsed hparse => exact .unparsed hparse
      | unregistered hparse hclasses => exact .unregistered hparse hclasses
      | unbound hparse hclasses himports =>
          exact .unbound hparse hclasses (bindImports_extends hload _ _ _ _ himports)
      | finished hparse hclasses himports hfinish =>
          exact .finished hparse hclasses (bindImports_extends hload _ _ _ _ himports)
            (Module.finish_extends hless _ _ _ _ _ hfinish)

/-- A load that has an outcome keeps it when more depth is allowed. -/
theorem load_extends (workspace : Workspace) {depth more : Nat} (h : depth ≤ more)
    (file : FileRef) :
    (workspace.load more file).Extends (workspace.load depth file) :=
  loadWith_extends (fun text => evaluateText_extends workspace h text) file

end

end ConfigNotation
