import ConfigNotation.Command.Directory
import ConfigNotation.Command.Run
import ConfigNotation.Proofs.Source.FeedBack

/-!
Checking a file and evaluating it. Both load the file and evaluate its text; evaluating
goes on to write the value down, which succeeds for every value that a text can have, as
the keys of such a value are identifiers. So both end well, or with the same error.
-/

namespace ConfigNotation

/-- An outcome does not change when more depth is allowed. -/
theorem Workspace.evaluate?_extends (workspace : Workspace) {depth more : Nat} (h : depth ≤ more)
    {source : String} {outcome : Except Failure Value}
    (hrun : workspace.evaluate? depth source = some outcome) :
    workspace.evaluate? more source = some outcome := by
  obtain ⟨result, hresult, houtcome⟩ := Option.map_eq_some_iff.1 hrun
  exact Option.map_eq_some_iff.2
    ⟨result, evaluateText_extends workspace h source _ _ hresult, houtcome⟩

/-- A text that forms no module fails in the same way when it is evaluated, at
every depth but zero. -/
theorem Workspace.evaluate?_of_parse_error (workspace : Workspace) {source : String}
    {failure : Failure} (hparse : workspace.parse source = .error failure) (depth : Nat) :
    workspace.evaluate? (depth + 1) source = some (.error failure) := by
  rw [Workspace.evaluate?, evaluates_iff_run.2 (.unparsed hparse)]
  rfl

/-- The keys of a value are identifiers, and a container can be written down, if
the value is that of a text. -/
theorem Workspace.written_of_evaluate? {workspace : Workspace} {depth : Nat} {source : String}
    {value : Value} (h : workspace.evaluate? depth source = some (.ok value)) :
    value.Keyed (fun _ => True) ∧
      (value.isContainer = true → ∀ indent, ∃ text, value.source none indent = .ok text) := by
  have hsound : value.Sound := workspace.sound_of_evaluate? h
  refine ⟨hsound.imp fun _ _ _ => trivial, fun hcontainer indent => ?_⟩
  exact ⟨_, Source.source_of_keyed hcontainer hsound indent⟩

namespace Command

/-- Every value that a text comes to can be printed. Its keys are identifiers,
which is the only thing that could be wrong with it. -/
theorem valueText_of_evaluate? {workspace : Workspace} {depth : Nat} {source : String}
    {value : Value} (h : workspace.evaluate? depth source = some (.ok value)) (indent : Nat) :
    ∃ text, valueText indent value = .ok text := by
  obtain ⟨-, hsource⟩ := workspace.written_of_evaluate? h
  cases value with
  | array | object =>
      obtain ⟨text, htext⟩ := hsource rfl indent
      exact ⟨text, by rw [valueText, htext]; rfl⟩
  | _ => exact ⟨_, rfl⟩

section

variable {host : Host} {options : Options} {file : MainFile}

theorem eval_runFile (depth : Nat) :
    eval.runFile host depth options file =
      ((file.workspace host).evaluate? depth file.text).map fun outcome =>
        outcome.mapError file.report >>= valueText options.indent := by
  simp only [runFile, Option.map_map]
  rfl

theorem check_runFile_of_error {failure : Failure}
    (hparse : (file.workspace host).parse file.text = .error failure) (depth : Nat) :
    check.runFile host depth options file = some (.error (file.report failure)) := by
  simp only [runFile, hparse]

theorem check_runFile_of_ok {lexed : Lexed} {module : Module}
    (hparse : (file.workspace host).parse file.text = .ok (lexed, module)) (depth : Nat) :
    check.runFile host depth options file =
      ((file.workspace host).evaluate? depth file.text).map fun outcome =>
        (outcome.mapError file.report).map fun _ => summary file.path module := by
  simp only [runFile, hparse, Option.map_map]
  rfl

/-- What an evaluation prints comes from the value of the text, or from its
failure. -/
theorem eval_runFile_cases {depth : Nat} {outcome : Except CommandError String}
    (h : eval.runFile host depth options file = some outcome) :
    (∃ failure, (file.workspace host).evaluate? depth file.text = some (.error failure) ∧
      outcome = .error (file.report failure)) ∨
    ∃ value text, (file.workspace host).evaluate? depth file.text = some (.ok value) ∧
      valueText options.indent value = .ok text ∧ outcome = .ok text := by
  rw [eval_runFile] at h
  obtain ⟨failure | value, hvalue, rfl⟩ := Option.map_eq_some_iff.1 h
  · exact .inl ⟨failure, hvalue, rfl⟩
  · obtain ⟨text, htext⟩ := valueText_of_evaluate? hvalue options.indent
    exact .inr ⟨value, text, hvalue, htext, htext⟩

/-- A check ends as an evaluation does, but for the text that is printed. -/
theorem check_runFile_eq (host : Host) (depth : Nat) (options : Options) (file : MainFile) :
    ∃ line, check.runFile host (depth + 1) options file =
      (eval.runFile host (depth + 1) options file).map (·.map fun _ => line) := by
  cases hparse : (file.workspace host).parse file.text with
  | error failure =>
      refine ⟨"", ?_⟩
      rw [check_runFile_of_error hparse, eval_runFile,
        (file.workspace host).evaluate?_of_parse_error hparse]
      rfl
  | ok parsed =>
      refine ⟨summary file.path parsed.2, ?_⟩
      rw [check_runFile_of_ok hparse, eval_runFile]
      rcases hvalue : (file.workspace host).evaluate? (depth + 1) file.text with
        _ | (failure | value)
      · rfl
      · rfl
      · obtain ⟨text, htext⟩ := valueText_of_evaluate? hvalue options.indent
        simp only [Option.map_some, Except.mapError, bind, Except.bind, htext]
        rfl

/-- What a command prints about a file does not change when more depth is
allowed. -/
theorem runFile_extends {command : Command} {depth more : Nat} (h : depth ≤ more)
    {outcome : Except CommandError String}
    (hrun : command.runFile host depth options file = some outcome) :
    command.runFile host more options file = some outcome := by
  have hextends {α : Type} (f : Except Failure Value → α) {result : α}
      (hresult : ((file.workspace host).evaluate? depth file.text).map f = some result) :
      ((file.workspace host).evaluate? more file.text).map f = some result := by
    obtain ⟨found, hfound, rfl⟩ := Option.map_eq_some_iff.1 hresult
    rw [(file.workspace host).evaluate?_extends h hfound]
    rfl
  cases command with
  | lex => exact hrun
  | eval =>
      rw [eval_runFile] at hrun ⊢
      exact hextends _ hrun
  | check =>
      cases hparse : (file.workspace host).parse file.text with
      | error failure => rwa [check_runFile_of_error hparse] at hrun ⊢
      | ok parsed =>
          rw [check_runFile_of_ok hparse] at hrun ⊢
          exact hextends _ hrun

end

/-- What a command prints about the file at a path, if any depth of nesting is
allowed. -/
def Ends (command : Command) (host : Host) (options : Options) (path : Path)
    (outcome : Except CommandError String) : Prop :=
  ∃ depth, command.runAt host depth options path = some outcome

section

variable {host : Host} {options : Options} {path : Path}

theorem runAt_extends {command : Command} {depth more : Nat} (h : depth ≤ more)
    {outcome : Except CommandError String}
    (hrun : command.runAt host depth options path = some outcome) :
    command.runAt host more options path = some outcome := by
  unfold runAt at hrun ⊢
  cases hload : MainFile.load host path options with
  | error error => rwa [hload] at hrun
  | ok file =>
      rw [hload] at hrun
      exact runFile_extends h hrun

/-- A command prints one thing only about a path, since of two depths the
greater one gives what both give. -/
theorem Ends.unique {command : Command} {outcome other : Except CommandError String}
    (h : command.Ends host options path outcome) (hother : command.Ends host options path other) :
    outcome = other := by
  obtain ⟨depth, hrun⟩ := h
  obtain ⟨more, hmore⟩ := hother
  have hfirst := runAt_extends (Nat.le_max_left depth more) hrun
  have hsecond := runAt_extends (Nat.le_max_right depth more) hmore
  exact Option.some.inj (hfirst.symm.trans hsecond)

/-- A check ends as an evaluation does at each depth but zero, apart from the
line that is printed. -/
theorem check_runAt_eq (host : Host) (depth : Nat) (options : Options) (path : Path) :
    ∃ line, check.runAt host (depth + 1) options path =
      (eval.runAt host (depth + 1) options path).map (·.map fun _ => line) := by
  unfold runAt
  cases MainFile.load host path options with
  | error error => exact ⟨"", rfl⟩
  | ok file => exact check_runFile_eq host depth options file

theorem Ends.atSuccessor {command : Command} {outcome : Except CommandError String}
    (h : command.Ends host options path outcome) :
    ∃ depth, command.runAt host (depth + 1) options path = some outcome := by
  obtain ⟨depth, hrun⟩ := h
  exact ⟨depth, runAt_extends (Nat.le_succ depth) hrun⟩

theorem check_ends_of_eval {outcome : Except CommandError String}
    (h : eval.Ends host options path outcome) :
    ∃ line, check.Ends host options path (outcome.map fun _ => line) := by
  obtain ⟨depth, hrun⟩ := h.atSuccessor
  obtain ⟨line, heq⟩ := check_runAt_eq host depth options path
  rw [hrun] at heq
  exact ⟨line, depth + 1, heq⟩

theorem eval_ends_of_check {printed : Except CommandError String}
    (h : check.Ends host options path printed) :
    ∃ outcome line, eval.Ends host options path outcome ∧
      printed = outcome.map fun _ => line := by
  obtain ⟨depth, hrun⟩ := h.atSuccessor
  obtain ⟨line, heq⟩ := check_runAt_eq host depth options path
  obtain ⟨outcome, houtcome, hsame⟩ := Option.map_eq_some_iff.1 (heq.symm.trans hrun)
  exact ⟨outcome, line, ⟨depth + 1, houtcome⟩, hsame.symm⟩

theorem check_ends_ok_iff :
    (∃ line, check.Ends host options path (.ok line)) ↔
      ∃ text, eval.Ends host options path (.ok text) := by
  constructor
  · rintro ⟨_, h⟩
    obtain ⟨error | text, _, heval, hsame⟩ := eval_ends_of_check h
    · cases hsame
    · exact ⟨text, heval⟩
  · rintro ⟨text, h⟩
    exact check_ends_of_eval h

theorem check_ends_error_iff {error : CommandError} :
    check.Ends host options path (.error error) ↔ eval.Ends host options path (.error error) := by
  constructor
  · intro h
    obtain ⟨found | text, _, heval, hsame⟩ := eval_ends_of_check h
    · cases hsame
      exact heval
    · cases hsame
  · intro h
    obtain ⟨_, hcheck⟩ := check_ends_of_eval h
    exact hcheck

/-- A file is refused while it is loaded for reasons that have nothing to do
with writing. -/
theorem load_ne_source {fault : SourceFault} :
    MainFile.load host path options ≠ .error (.source fault) := by
  intro h
  unfold MainFile.load at h
  cases hconfig : MainFile.configFor host path options with
  | error fault =>
      rw [hconfig] at h
      cases h
  | ok config =>
      rw [hconfig] at h
      cases hbytes : host.files.read path with
      | error reason =>
          rw [hbytes] at h
          cases h
      | ok bytes =>
          rw [hbytes] at h
          cases htext : config.encoding.decode bytes with
          | error fault =>
              simp only [Except.mapError, bind, Except.bind, htext] at h
              cases h
          | ok text =>
              simp only [Except.mapError, bind, Except.bind, htext] at h
              cases h

/-- An evaluation never ends in the error that a value cannot be written. -/
theorem eval_not_ends_source {fault : SourceFault} :
    ¬eval.Ends host options path (.error (.source fault)) := by
  rintro ⟨depth, hrun⟩
  unfold runAt at hrun
  cases hload : MainFile.load host path options with
  | error error =>
      rw [hload] at hrun
      cases hrun
      exact load_ne_source hload
  | ok file =>
      rw [hload] at hrun
      rcases eval_runFile_cases hrun with ⟨_, _, hsame⟩ | ⟨_, _, _, _, hsame⟩ <;> cases hsame

end

end Command

open Command

/-- Whatever the machine holds, checking a file succeeds exactly if evaluating
it does, both end in at most one way, and they fail with the same error. Writing
the value down is never what fails: the keys of a value that a text has are
identifiers. -/
theorem check_agrees_with_eval (host : Host) (options : Options) (path : Path) :
    ((∃ line, check.Ends host options path (.ok line)) ↔
      ∃ text, eval.Ends host options path (.ok text)) ∧
    (∀ error, check.Ends host options path (.error error) ↔
      eval.Ends host options path (.error error)) ∧
    (∀ command : Command, ∀ outcome other, command.Ends host options path outcome →
      command.Ends host options path other → outcome = other) ∧
    (∀ fault, ¬eval.Ends host options path (.error (.source fault))) ∧
    ∀ (workspace : Workspace) (depth : Nat) (source : String) (value : Value),
      workspace.evaluate? depth source = some (.ok value) →
      value.Keyed (fun _ => True) ∧
        (value.isContainer = true → ∀ indent, ∃ text, value.source none indent = .ok text) :=
  ⟨check_ends_ok_iff, fun _ => check_ends_error_iff, fun _ _ _ => Ends.unique,
    fun _ => eval_not_ends_source, fun _ _ _ _ => Workspace.written_of_evaluate?⟩

def twoFiles : Host :=
  let main := "import \"part.bcon\".utf8 as part; export [@a => part; @b => [...part; @c => 2;];];"
  (((Directory.empty ["w"]).addFile "main.bcon" main.toUTF8.toList).addFile
    "part.bcon" "export [@c => 1;];".toUTF8.toList).host fun _ _ => ""

theorem check_agrees_with_eval_import :
    eval.Ends twoFiles .none ⟨"main.bcon"⟩ (.ok "export [@a=>[@c=>1;];@b=>[@c=>2;];];") ∧
      ∃ line, check.Ends twoFiles .none ⟨"main.bcon"⟩ (.ok line) := by
  have hseen : (eval.runAt twoFiles 9 .none ⟨"main.bcon"⟩).map (·.toOption) =
      some (some "export [@a=>[@c=>1;];@b=>[@c=>2;];];") := by decide +kernel
  obtain ⟨error | text, hrun, hsame⟩ := Option.map_eq_some_iff.1 hseen
  · cases hsame
  · cases hsame
    have heval : eval.Ends twoFiles .none ⟨"main.bcon"⟩ _ := ⟨9, hrun⟩
    exact ⟨heval, (check_agrees_with_eval twoFiles .none ⟨"main.bcon"⟩).1.2 ⟨_, heval⟩⟩

end ConfigNotation
