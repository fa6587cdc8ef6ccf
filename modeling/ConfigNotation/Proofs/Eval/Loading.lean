import ConfigNotation.Eval.Session
import ConfigNotation.Proofs.Eval.Depth

/-!
What a step in a session does to the session, one equation for each way to build
steps. Look-ups in the cache go by the steps of a path.
-/

namespace ConfigNotation

namespace ImportCache

def lookup (cache : ImportCache) (steps : List Step) : Option Value :=
  (cache.entries.find? fun entry => entry.1.steps == steps).map (·.2)

/-- The cache is asked by steps, so that two spellings of one path meet the same
value. -/
theorem get?_eq_lookup (cache : ImportCache) (path : Path) :
    cache.get? path = cache.lookup path.steps := rfl

theorem lookup_empty (steps : List Step) : empty.lookup steps = none := rfl

/-- Putting a value under a path changes what is found for this path only. -/
theorem lookup_insert (cache : ImportCache) (path : Path) (value : Value) (steps : List Step) :
    (cache.insert path value).lookup steps =
      if path.steps = steps then some value else cache.lookup steps := by
  obtain ⟨entries⟩ := cache
  unfold insert lookup
  induction entries with
  | nil => by_cases h : path.steps = steps <;> simp [put, h]
  | cons entry rest ih =>
      obtain ⟨first, old⟩ := entry
      simp only at ih
      by_cases hfirst : first.steps = path.steps
      · by_cases h : path.steps = steps <;> simp [put, Path.same, hfirst, h]
      · by_cases hother : first.steps = steps
        · have h : path.steps ≠ steps := fun heq => hfirst (hother.trans heq.symm)
          simp [put, Path.same, hother, h, Ne.symm h]
        · simpa [put, Path.same, hfirst, hother] using ih

end ImportCache

namespace Loading

variable {ε δ α β : Type}

/-- A step and the steps behind it, which are left out after an error. -/
theorem run_bind (loading : Loading ε α) (next : α → Loading ε β) (session : Session) :
    (loading >>= next).run session =
      match loading.run session with
      | none => none
      | some (.ok value, middle) => (next value).run middle
      | some (.error error, middle) => some (.error error, middle) := by
  rw [ExceptT.run_bind]
  change (StateT.bind loading.run _ session) = _
  unfold StateT.bind
  rcases loading.run session with _ | ⟨_ | _, _⟩ <;> rfl

@[simp] theorem run_get (session : Session) :
    (get : Loading ε Session).run session = some (.ok session, session) := rfl

@[simp] theorem run_modify (change : Session → Session) (session : Session) :
    (modify change : Loading ε PUnit).run session = some (.ok (), change session) := rfl

@[simp] theorem run_ofExcept (result : Except ε α) (session : Session) :
    (ofExcept result).run session = some (result, session) := rfl

theorem run_adapt (loading : Loading ε α) (f : ε → δ) (session : Session) :
    (loading.adapt f).run session =
      (loading.run session).map fun (outcome, finish) => (outcome.mapError f, finish) := by
  change (StateT.map _ loading.run session) = _
  unfold StateT.map
  cases loading.run session <;> rfl

theorem run_outcome (loading : Loading ε α) (session : Session) :
    (loading.outcome : Loading δ (Except ε α)).run session =
      (loading.run session).map fun (outcome, finish) => (.ok outcome, finish) := by
  change (StateT.map _ loading.run session) = _
  unfold StateT.map
  cases loading.run session <;> rfl

theorem run_ofEvaluation (evaluation : Evaluation α) (session : Session) :
    (ofEvaluation evaluation).run session =
      evaluation.run.map fun outcome => (outcome, session) := by
  change (StateT.lift evaluation.run session) = _
  unfold StateT.lift
  cases evaluation.run <;> rfl

end Loading

namespace Module

/-- What a module comes to when its classes are known and its imports are
bound. -/
def finish (depth : Nat) (files : FileSystem) (module : Module) (classes : ClassTable)
    (imported : Record Value) : Evaluation Value := do
  let eval (bindings : Record Value) := Scope.eval ⟨classes, bindings, files⟩ depth
  let bindings ← bindUses eval imported module.uses
  eval bindings module.body .none

theorem bindUses_extends {more less : Record Value → Evaluator}
    (heval : ∀ bindings, Evaluator.Extends (more bindings) (less bindings))
    (bindings : Record Value) (uses : List Use) :
    (bindUses more bindings uses).Extends (bindUses less bindings uses) := by
  induction uses generalizing bindings with
  | nil => exact .refl _
  | cons first rest ih => exact ((heval _ _ _).within _).bind fun value => ih _

/-- What a module comes to behind its imports does not change with more depth. -/
theorem finish_extends {depth more : Nat} (h : depth ≤ more) (files : FileSystem)
    (module : Module) (classes : ClassTable) (imported : Record Value) :
    (module.finish more files classes imported).Extends
      (module.finish depth files classes imported) :=
  (bindUses_extends (fun _ => Scope.eval_extends _ h) _ _).bind fun _ =>
    Scope.eval_extends _ h _ _

/-- A module in three parts: its classes, its imports and its uses with the export.
An error ends it, and the session keeps what was loaded by then. -/
theorem evaluate_run (depth : Nat) (files : FileSystem)
    (load : FileRef → Loading EvalError Value) (module : Module) (session : Session) :
    (module.evaluate depth files load).run session =
      match ClassTable.registerAll .empty module.classes with
      | .error error => some (.error error, session)
      | .ok classes =>
          match (bindImports load .empty module.imports).run session with
          | none => none
          | some (.error error, finish) => some (.error error, finish)
          | some (.ok imported, finish) =>
              (module.finish depth files classes imported).run.map (·, finish) := by
  unfold evaluate
  rw [Loading.run_bind, Loading.run_ofExcept]
  cases ClassTable.registerAll .empty module.classes with
  | error error => rfl
  | ok classes =>
      dsimp only
      rw [Loading.run_bind]
      rcases (bindImports load .empty module.imports).run session with
        _ | ⟨error | imported, middle⟩
      · rfl
      · rfl
      · dsimp only
        rw [Loading.run_bind, Loading.run_ofEvaluation, finish, ExceptT.run_bind]
        rcases ExceptT.run (bindUses _ imported module.uses) with _ | error | bindings
        · rfl
        · rfl
        · exact Loading.run_ofEvaluation _ middle

end Module

namespace Workspace

def located (text : String) (result : Except EvalError Value) : Except Failure Value :=
  result.mapError fun error => .eval (error.locate text)

/-- A text that forms no module leaves the session as it is. Otherwise the module
is evaluated, and errors get the position that their span has in this text. -/
theorem evaluateText_run (workspace : Workspace) (depth : Nat) (source : String)
    (session : Session) :
    (workspace.evaluateText (depth + 1) source).run session =
      match workspace.parse source with
      | .error failure => some (.error failure, session)
      | .ok (lexed, module) =>
          ((module.evaluate depth workspace.files
              (workspace.loadWith (workspace.evaluateText depth))).run session).map
            fun (outcome, finish) => (located lexed.text outcome, finish) := by
  rw [evaluateText, Loading.run_bind, Loading.run_ofExcept]
  cases workspace.parse source with
  | error failure => rfl
  | ok parsed => exact Loading.run_adapt _ _ session

/-- All that a call of `load` can do, in the order in which the cases are tried:
the cache, a cycle, the text of the file, and its evaluation. -/
theorem loadWith_run (workspace : Workspace) (evaluate : String → Loading Failure Value)
    (file : FileRef) (session : Session) :
    (workspace.loadWith evaluate file).run session =
      match session.cache.lookup file.path.steps with
      | some value => some (.ok value, session)
      | none =>
          if session.opened.any (·.same file.path) then
            some (.error (.raise (.importCycle (session.opened ++ [file.path]))), session)
          else
            match workspace.readText file with
            | .error error => some (.error error, session.noteRead file.path)
            | .ok text =>
                match (evaluate text).run ((session.noteRead file.path).enter file.path) with
                | none => none
                | some (.ok value, finish) =>
                    some (.ok value, finish.leave.remember file.path value)
                | some (.error cause, finish) =>
                    some (.error (.raise (.importFailed file.path cause)), finish.leave) := by
  unfold loadWith
  rw [Loading.run_bind, Loading.run_get]
  dsimp only
  rw [ImportCache.get?_eq_lookup]
  cases session.cache.lookup file.path.steps with
  | some value => rfl
  | none =>
      dsimp only
      split
      · rfl
      · rw [Loading.run_bind, Loading.run_modify]
        dsimp only
        rw [Loading.run_bind, Loading.run_ofExcept]
        cases workspace.readText file with
        | error error => rfl
        | ok text =>
            dsimp only
            rw [Loading.run_bind, Loading.run_modify]
            dsimp only
            rw [Loading.run_bind, Loading.run_outcome]
            rcases (evaluate text).run ((session.noteRead file.path).enter file.path) with
              _ | ⟨_ | _, _⟩ <;> rfl

/-- A text has the value that its module comes to behind its imports. -/
theorem evaluateText_ok {workspace : Workspace} {depth : Nat} {source : String} {lexed : Lexed}
    {module : Module} {classes : ClassTable} {imported : Record Value} {value : Value}
    {session finish : Session} (hparse : workspace.parse source = .ok (lexed, module))
    (hclasses : ClassTable.registerAll .empty module.classes = .ok classes)
    (himports : (Module.bindImports (workspace.load depth) .empty module.imports).run session =
      some (.ok imported, finish))
    (hvalue : (module.finish depth workspace.files classes imported).run = some (.ok value)) :
    (workspace.evaluateText (depth + 1) source).run session = some (.ok value, finish) := by
  have hmodule : (module.evaluate depth workspace.files (workspace.load depth)).run session =
      some (.ok value, finish) := by
    rw [Module.evaluate_run, hclasses]
    dsimp only
    rw [himports]
    dsimp only
    rw [hvalue]
    rfl
  have hload : workspace.loadWith (workspace.evaluateText depth) = workspace.load depth := rfl
  rw [evaluateText_run, hparse]
  dsimp only
  rw [hload, hmodule]
  rfl

/-- A file that is neither cached nor open gets the value of its text. -/
theorem load_ok {workspace : Workspace} {depth : Nat} {file : FileRef} {text : String}
    {value : Value} {session finish : Session}
    (hnew : session.cache.lookup file.path.steps = none)
    (hclosed : session.opened.any (·.same file.path) = false)
    (htext : workspace.readText file = .ok text)
    (hvalue : (workspace.evaluateText depth text).run
      ((session.noteRead file.path).enter file.path) = some (.ok value, finish)) :
    (workspace.load depth file).run session =
      some (.ok value, finish.leave.remember file.path value) := by
  rw [load, loadWith_run, hnew, hclosed, htext]
  dsimp only
  rw [hvalue]
  rfl

end Workspace

end ConfigNotation
