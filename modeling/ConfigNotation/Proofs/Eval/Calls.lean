import ConfigNotation.Proofs.Eval.Runs

/-!
The calls of `load` that are made when a file is loaded or a text is evaluated, whether they
come from its own import statements or from those of the files that it imports.
-/

namespace ConfigNotation

open Session

/-- Calls of `load`: each with the allowance that is left, the file, and the
session at the call. -/
abbrev CallsMade := Nat → FileRef → Session → Prop

/-- The calls of `load` that the evaluation of a text makes, with the allowance
that is left and the session at the call: the call of an import statement when
those before it are bound, and the calls that the text of a file makes when the
file is read. -/
inductive Calls (workspace : Workspace) :
    Nat → String → Session → Nat → FileRef → Session → Prop where
  | statement {depth : Nat} {source : String} {session finish : Session} {lexed : Lexed}
      {module : Module} {classes : ClassTable} {before after : List Import} {first : Import}
      {bound : Record Value} (hparse : workspace.parse source = .ok (lexed, module))
      (hclasses : ClassTable.registerAll .empty module.classes = .ok classes)
      (himports : module.imports = before ++ first :: after)
      (hbefore : (Module.bindImports (workspace.load depth) .empty before).run session =
        some (.ok bound, finish)) :
      Calls workspace (depth + 1) source session depth first.source finish
  | nested {depth below lower : Nat} {source text : String} {session inner last : Session}
      {file other : FileRef} (hcall : Calls workspace depth source session below file inner)
      (hlacks : inner.Lacks file.path) (htext : workspace.readText file = .ok text)
      (hnested : Calls workspace below text (inner.entered file.path) lower other last) :
      Calls workspace depth source session lower other last

/-- The calls that a call of `load` makes, itself included: those of the text of
the file follow it if the file is read. -/
inductive CallsBehind (workspace : Workspace) (depth : Nat) (file : FileRef) (session : Session) :
    CallsMade where
  | call : CallsBehind workspace depth file session depth file session
  | text {below : Nat} {other : FileRef} {inner : Session} {text : String}
      (hlacks : session.Lacks file.path) (htext : workspace.readText file = .ok text)
      (hcall : Calls workspace depth text (session.entered file.path) below other inner) :
      CallsBehind workspace depth file session below other inner

/-- The calls that import statements make, one statement after the other. -/
inductive ImportCalls (workspace : Workspace) (depth : Nat) :
    List Import → Session → CallsMade where
  | first {first : Import} {rest : List Import} {session inner : Session} {below : Nat}
      {file : FileRef} (hcall : CallsBehind workspace depth first.source session below file inner) :
      ImportCalls workspace depth (first :: rest) session below file inner
  | rest {first : Import} {rest : List Import} {session middle inner : Session} {value : Value}
      {below : Nat} {file : FileRef}
      (hfirst : (workspace.load depth first.source).run session = some (.ok value, middle))
      (hcall : ImportCalls workspace depth rest middle below file inner) :
      ImportCalls workspace depth (first :: rest) session below file inner

section

variable {workspace : Workspace} {depth below lower : Nat} {file other : FileRef}
  {session inner last : Session} {text : String}

theorem CallsBehind.nested (hcall : CallsBehind workspace depth file session below other inner)
    (hlacks : inner.Lacks other.path) (htext : workspace.readText other = .ok text)
    {again : FileRef}
    (hnested : Calls workspace below text (inner.entered other.path) lower again last) :
    CallsBehind workspace depth file session lower again last := by
  cases hcall with
  | call => exact .text hlacks htext hnested
  | text hfirst hread hcall => exact .text hfirst hread (hcall.nested hlacks htext hnested)

/-- A file that is read makes the calls of its text behind its own call. -/
theorem callsBehind_iff (hlacks : session.Lacks file.path)
    (htext : workspace.readText file = .ok text) :
    CallsBehind workspace depth file session below other inner ↔
      (below = depth ∧ other = file ∧ inner = session) ∨
        Calls workspace depth text (session.entered file.path) below other inner := by
  constructor
  · intro hcall
    cases hcall with
    | call => exact .inl ⟨rfl, rfl, rfl⟩
    | text _ hsame hcall =>
        rw [htext] at hsame
        cases hsame
        exact .inr hcall
  · rintro (⟨rfl, rfl, rfl⟩ | hcall)
    · exact .call
    · exact .text hlacks htext hcall

theorem ImportCalls.nested {imports : List Import}
    (hcall : ImportCalls workspace depth imports session below file inner)
    (hlacks : inner.Lacks file.path) (htext : workspace.readText file = .ok text)
    (hnested : Calls workspace below text (inner.entered file.path) lower other last) :
    ImportCalls workspace depth imports session lower other last := by
  induction hcall with
  | first hcall => exact .first (hcall.nested hlacks htext hnested)
  | rest hfirst _ ih => exact .rest hfirst (ih hlacks htext hnested)

/-- The call of a statement is made when the statements before it are bound. -/
theorem importCalls_statement {before after : List Import} {first : Import}
    {bindings bound : Record Value}
    (hbefore : (Module.bindImports (workspace.load depth) bindings before).run session =
      some (.ok bound, inner)) :
    ImportCalls workspace depth (before ++ first :: after) session depth first.source inner := by
  induction before generalizing bindings session with
  | nil =>
      cases hbefore
      exact .first .call
  | cons statement before ih =>
      rcases bindImports_cons_run hbefore with ⟨_, _, _, hnone⟩ | ⟨value, middle, hfirst, hrest⟩
      · cases hnone
      · exact .rest hfirst (ih hrest)

/-- Statements that are bound, and one more. -/
theorem bindImports_concat {before : List Import} {first : Import} {bindings bound : Record Value}
    {value : Value}
    (hbefore : (Module.bindImports (workspace.load depth) bindings before).run session =
      some (.ok bound, inner))
    (hfirst : (workspace.load depth first.source).run inner = some (.ok value, last)) :
    (Module.bindImports (workspace.load depth) bindings (before ++ [first])).run session =
      some (.ok (first.binding.bind bound value), last) := by
  induction before generalizing bindings session with
  | nil =>
      cases hbefore
      rw [List.nil_append, bindImports_cons, hfirst]
      rfl
  | cons statement before ih =>
      rcases bindImports_cons_run hbefore with ⟨_, _, _, hnone⟩ | ⟨value, middle, hstatement, hrest⟩
      · cases hnone
      · rw [List.cons_append, bindImports_cons, hstatement]
        exact ih hrest

/-- Behind statements that are bound, those that follow make calls of the
text. -/
theorem ImportCalls.calls {source : String} {lexed : Lexed} {module : Module}
    {classes : ClassTable} {before imports : List Import} {bound : Record Value} {start : Session}
    (hcall : ImportCalls workspace depth imports session below file inner)
    (hparse : workspace.parse source = .ok (lexed, module))
    (hclasses : ClassTable.registerAll .empty module.classes = .ok classes)
    (himports : module.imports = before ++ imports)
    (hbefore : (Module.bindImports (workspace.load depth) .empty before).run start =
      some (.ok bound, session)) :
    Calls workspace (depth + 1) source start below file inner := by
  induction hcall generalizing before bound with
  | first hcall =>
      have hstatement := Calls.statement hparse hclasses himports hbefore
      cases hcall with
      | call => exact hstatement
      | text hlacks htext hcall => exact hstatement.nested hlacks htext hcall
  | rest hfirst _ ih =>
      refine ih ?_ (bindImports_concat hbefore hfirst)
      rw [himports, List.append_assoc]
      rfl

/-- A text makes the calls of its import statements, if it is a module with
known classes. -/
theorem calls_succ_iff {source : String} :
    Calls workspace (depth + 1) source session below file inner ↔
      ∃ lexed module classes, workspace.parse source = .ok (lexed, module) ∧
        ClassTable.registerAll .empty module.classes = .ok classes ∧
        ImportCalls workspace depth module.imports session below file inner := by
  constructor
  · intro hcall
    generalize hdepth : depth + 1 = more at hcall
    induction hcall generalizing depth with
    | statement hparse hclasses himports hbefore =>
        cases hdepth
        exact ⟨_, _, _, hparse, hclasses, himports ▸ importCalls_statement hbefore⟩
    | nested _ hlacks htext hnested ih _ =>
        obtain ⟨lexed, module, classes, hparse, hclasses, hcall⟩ := ih hdepth
        exact ⟨lexed, module, classes, hparse, hclasses, hcall.nested hlacks htext hnested⟩
  · rintro ⟨lexed, module, classes, hparse, hclasses, hcall⟩
    exact hcall.calls hparse hclasses (List.nil_append _).symm rfl

end

/-- A file that one of some calls loads for the first time: the call finds
nothing cached for the path of the file, and succeeds. -/
def LoadsFirst (workspace : Workspace) (made : CallsMade) (file : FileRef) : Prop :=
  ∃ depth session value finish, made depth file session ∧
    session.cache.get? file.path = none ∧
    (workspace.load depth file).run session = some (.ok value, finish)

theorem LoadsFirst.mono {workspace : Workspace} {made more : CallsMade} {file : FileRef}
    (h : LoadsFirst workspace made file)
    (hmore : ∀ depth file session, made depth file session → more depth file session) :
    LoadsFirst workspace more file := by
  obtain ⟨depth, session, value, finish, hcall, hnew, hrun⟩ := h
  exact ⟨depth, session, value, finish, hmore depth file session hcall, hnew, hrun⟩

end ConfigNotation
