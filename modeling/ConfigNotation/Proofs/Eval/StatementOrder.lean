import ConfigNotation.Proofs.Eval.References
import ConfigNotation.Proofs.Eval.Runs
import ConfigNotation.Proofs.Eval.Spanless
import ConfigNotation.Proofs.Syntax.Arrangement
import ConfigNotation.Proofs.Syntax.AliasEnd

/-!
Statements of different sorts may change places. A module that is rearranged in this way has
the same syntax up to spans, and whatever a module comes to does not depend on its spans.
-/

namespace ConfigNotation

namespace ClassTable

theorem mixin_spanless (classes : ClassTable) (name : String) :
    classes.spanless.mixin name = (classes.mixin name).map .spanless := by
  rw [mixin, mixin, get?_spanless]
  cases classes.get? name <;> rfl

theorem baseOf_spanless (classes : ClassTable) (decl : ClassDecl) :
    classes.spanless.baseOf decl.spanless = (classes.baseOf decl).map (·.map .spanless) := by
  obtain ⟨name, parameters, base, mixins, fields, span⟩ := decl
  cases base with
  | none => rfl
  | some base =>
      unfold baseOf ClassDecl.spanless
      dsimp only
      rw [get?_spanless]
      cases classes.get? base <;> rfl

theorem mixins_spanless (classes : ClassTable) (names : List String) :
    names.mapM classes.spanless.mixin = (names.mapM classes.mixin).map (·.map .spanless) := by
  induction names with
  | nil => rfl
  | cons name rest ih =>
      rw [List.mapM_cons, List.mapM_cons, ih, mixin_spanless]
      cases classes.mixin name with
      | error error => rfl
      | ok cls => cases rest.mapM classes.mixin <;> rfl

/-- The fields that a class takes from others and its own ones, without spans. -/
theorem fields_spanless (mixins : List Class) (base : Option Class)
    (fields : List (Field TypeExpr)) :
    Record.ofEntries ((mixins.map Class.spanless ++ (base.map Class.spanless).toList).flatMap
        (·.fields.entries) ++ (fields.map Field.spanless).map fun field => (field.name, field)) =
      (Record.ofEntries ((mixins ++ base.toList).flatMap (·.fields.entries) ++
        fields.map fun field => (field.name, field))).mapValues .spanless := by
  have hinherited (classes : List Class) :
      (classes.map Class.spanless).flatMap (·.fields.entries) =
        (classes.flatMap (·.fields.entries)).map fun entry => (entry.1, entry.2.spanless) := by
    rw [List.flatMap_map, List.map_flatMap]
    rfl
  have hown : (fields.map Field.spanless).map (fun field => (field.name, field)) =
      (fields.map fun field => (field.name, field)).map fun entry =>
        (entry.1, entry.2.spanless) := by
    rw [List.map_map, List.map_map]
    rfl
  have hbase : (base.map Class.spanless).toList = base.toList.map .spanless := by
    cases base <;> rfl
  rw [hbase, ← List.map_append, hinherited, hown, ← List.map_append, Record.ofEntries_mapValues]

/-- A declaration without spans makes the class without spans. -/
theorem resolve_spanless (classes : ClassTable) (decl : ClassDecl) :
    classes.spanless.resolve decl.spanless = (classes.resolve decl).map .spanless := by
  have hmixins : decl.spanless.mixins.mapM classes.spanless.mixin =
      (decl.mixins.mapM classes.mixin).map (·.map .spanless) := classes.mixins_spanless _
  unfold resolve
  rw [baseOf_spanless, hmixins]
  cases classes.baseOf decl with
  | error error => rfl
  | ok base =>
      cases decl.mixins.mapM classes.mixin with
      | error error => rfl
      | ok mixins =>
          have hfields := fields_spanless mixins base decl.fields
          have hparameters : (base.map Class.spanless).map (·.parameters) =
              base.map (·.parameters) := by cases base <;> rfl
          change Except.ok (Class.mk decl.name _ _) = Except.ok (Class.spanless _)
          rw [Class.spanless]
          dsimp only
          rw [← hfields, ← hparameters]
          rfl

/-- A declaration is registered or refused alike when spans are left out, and
the fault is the same. -/
theorem register_spanless (classes : ClassTable) (decl : ClassDecl) :
    classes.spanless.register decl.spanless = (classes.register decl).map .spanless := by
  rw [register, register, resolve_spanless]
  cases classes.resolve decl with
  | error error => rfl
  | ok cls =>
      exact congrArg Except.ok (Record.insert_mapValues Class.spanless classes decl.name cls)

/-- The declarations of a module make the same classes without spans, or are
refused with the same fault. -/
theorem registerAll_spanless (classes : ClassTable) (decls : List ClassDecl) :
    (classes.spanless.registerAll (decls.map .spanless)).mapError EvalError.fault =
      ((classes.registerAll decls).map .spanless).mapError EvalError.fault := by
  induction decls generalizing classes with
  | nil => rfl
  | cons decl rest ih =>
      unfold registerAll at ih ⊢
      rw [List.map_cons, List.foldlM_cons, List.foldlM_cons, register_spanless]
      cases classes.register decl with
      | error error => rfl
      | ok next => exact ih next

end ClassTable

namespace Loading

variable {α β : Type}

/-- A step without the place of its error. -/
def faults (loading : Loading EvalError α) : Loading EvalFault α := loading.adapt EvalError.fault

theorem faults_bind_run (loading : Loading EvalError α) (next : α → Loading EvalError β)
    (session : Session) :
    (loading >>= next).faults.run session =
      (loading.faults >>= fun value => (next value).faults).run session := by
  rw [faults, run_adapt, run_bind, run_bind, faults, run_adapt]
  rcases loading.run session with _ | ⟨error | value, middle⟩
  · rfl
  · rfl
  · exact (run_adapt _ _ middle).symm

/-- Two steps that leave the same session behind, and come to the same value or
to errors with the same fault. -/
def Agrees (first second : Loading EvalError α) : Prop :=
  ∀ session, first.faults.run session = second.faults.run session

theorem Agrees.refl (loading : Loading EvalError α) : loading.Agrees loading := fun _ => rfl

theorem Agrees.bind {first second : Loading EvalError α} {next other : α → Loading EvalError β}
    (hfirst : first.Agrees second) (hnext : ∀ value, (next value).Agrees (other value)) :
    (first >>= next).Agrees (second >>= other) := by
  intro session
  rw [faults_bind_run, faults_bind_run, run_bind, run_bind, hfirst session]
  rcases second.faults.run session with _ | ⟨fault | value, middle⟩
  · rfl
  · rfl
  · exact hnext value middle

theorem Agrees.within {first second : Loading EvalError α} (h : first.Agrees second)
    (span other : Span) : (first.within span).Agrees (second.within other) := by
  have hwithin (loading : Loading EvalError α) (span : Span) (session : Session) :
      (loading.within span).faults.run session = loading.faults.run session := by
    rw [faults, faults, Loading.within, run_adapt, run_adapt, run_adapt]
    rcases loading.run session with _ | ⟨error | value, middle⟩ <;> rfl
  intro session
  rw [hwithin, hwithin, h session]

theorem agrees_ofEvaluation {first second : Evaluation α} (h : first.Agrees second) :
    (ofEvaluation first).Agrees (ofEvaluation second) := by
  intro session
  rw [faults, faults, run_adapt, run_adapt, run_ofEvaluation, run_ofEvaluation, Option.map_map,
    Option.map_map]
  have heq := congrArg (Option.map fun outcome => (outcome, session)) h
  rwa [Evaluation.faults, Evaluation.faults, Option.map_map, Option.map_map] at heq

/-- Two results as first steps, if the values of the one are a view of those of
the other. -/
theorem agrees_ofExcept_bind {first second : Except EvalError α} (view : α → α)
    (h : second.mapError EvalError.fault = (first.map view).mapError EvalError.fault)
    {next other : α → Loading EvalError β}
    (hnext : ∀ value, (next value).Agrees (other (view value))) :
    (ofExcept first >>= next).Agrees (ofExcept second >>= other) := by
  intro session
  rw [faults_bind_run, faults_bind_run, run_bind, run_bind, faults, faults, run_adapt, run_adapt,
    run_ofExcept, run_ofExcept, Option.map_some, Option.map_some]
  dsimp only
  rw [h]
  cases first with
  | error error => rfl
  | ok value => exact hnext value session

end Loading

namespace Module

/-- What the imports bind does not depend on where they stand. -/
theorem bindImports_agrees (load : FileRef → Loading EvalError Value) (bindings : Record Value)
    (imports : List Import) :
    (bindImports load bindings imports).Agrees
      (bindImports load bindings (imports.map .spanless)) := by
  induction imports generalizing bindings with
  | nil => exact .refl _
  | cons first rest ih =>
      exact ((Loading.Agrees.refl (load first.source)).within _ _).bind fun value => ih _

/-- Uses bind the same values if their evaluation agrees, each seeing the same
names as in the other module. -/
theorem bindUses_agrees {eval other : Record Value → Evaluator}
    (heval : ∀ bindings, (eval bindings).Agrees (other bindings)) (bindings : Record Value)
    (uses : List Use) :
    (bindUses eval bindings uses).Agrees (bindUses other bindings (uses.map .spanless)) := by
  induction uses generalizing bindings with
  | nil => exact .refl _
  | cons first rest ih =>
      exact ((heval bindings first.value .none).within _ _).bind fun value => ih _

/-- A module comes to the same value without its spans and leaves the same
session behind, or fails with the same fault. -/
theorem evaluate_agrees (depth : Nat) (files : FileSystem)
    (load : FileRef → Loading EvalError Value) (module : Module) :
    (module.evaluate depth files load).Agrees (module.spanless.evaluate depth files load) := by
  refine Loading.agrees_ofExcept_bind .spanless
    (ClassTable.registerAll_spanless .empty module.classes) fun classes => ?_
  refine (bindImports_agrees load .empty module.imports).bind fun imported => ?_
  have heval (bindings : Record Value) := Scope.eval_agrees ⟨classes, bindings, files⟩ depth
  have huses := bindUses_agrees heval imported module.uses
  exact (Loading.agrees_ofEvaluation huses).bind fun bindings =>
    Loading.agrees_ofEvaluation (heval bindings module.body .none)

/-- Modules that are the same up to spans come to the same. -/
theorem evaluate_agrees_of_spanless {module other : Module}
    (hsame : other.spanless = module.spanless) (depth : Nat) (files : FileSystem)
    (load : FileRef → Loading EvalError Value) :
    (other.evaluate depth files load).Agrees (module.evaluate depth files load) := by
  intro session
  rw [evaluate_agrees depth files load other session, hsame,
    ← evaluate_agrees depth files load module session]

end Module

def Failure.unplaced : Failure → Failure
  | .eval error => .eval (.raise error.fault)
  | failure => failure

namespace Workspace

theorem unplaced_located (text : String) (result : Except EvalError Value) :
    (located text result).mapError Failure.unplaced =
      (result.mapError EvalError.fault).mapError fun fault => .eval (.raise fault) := by
  cases result <;> rfl

/-- Texts whose modules are the same up to spans come to the same, up to the
place of an error. -/
theorem evaluate?_unplaced {workspace : Workspace} {source other : String} {lexed found : Lexed}
    {module rearranged : Module} (hparse : workspace.parse source = .ok (lexed, module))
    (hother : workspace.parse other = .ok (found, rearranged))
    (hsame : rearranged.spanless = module.spanless) (depth : Nat) :
    (workspace.evaluate? depth other).map (·.mapError Failure.unplaced) =
      (workspace.evaluate? depth source).map (·.mapError Failure.unplaced) := by
  cases depth with
  | zero => rfl
  | succ depth =>
      let load := workspace.loadWith (workspace.evaluateText depth)
      have hrun := Module.evaluate_agrees_of_spanless hsame depth workspace.files load
        (.start .empty)
      rw [Loading.faults, Loading.faults, Loading.run_adapt, Loading.run_adapt] at hrun
      rw [evaluate?, evaluate?, evaluateText_run, evaluateText_run, hparse, hother]
      dsimp only
      have heq := congrArg (Option.map fun found : Except EvalFault Value × Session =>
        found.1.mapError fun fault => Failure.eval (.raise fault)) hrun
      simp only [Option.map_map] at heq ⊢
      simpa only [Function.comp_def, unplaced_located] using heq

end Workspace

open Grammar

/-- Complete statements in front of an export may stand in every order that
keeps that of the imports, of the uses and of the classes, and loose expressions
may stand anywhere or be left out. The module is the same up to spans; in the
same workspace and every session it comes to the same value, or to an error with
the same fault. -/
theorem statement_order_irrelevant {workspace : Workspace} {statements others : List (List Token)}
    {last otherLast tokens otherTokens : List Token} {body : Expr}
    (hstatements : ∀ statement ∈ statements, IsStatement workspace statement)
    (hlast : IsExport workspace last body) (hothers : Rearranges statements others)
    (hotherLast : Alike last otherLast) (htokens : beforeEnd tokens = statements.flatten ++ last)
    (hotherTokens : beforeEnd otherTokens = others.flatten ++ otherLast) :
    ∃ module other, Module.ofTokens workspace tokens = .ok module ∧
      Module.ofTokens workspace otherTokens = .ok other ∧ other.spanless = module.spanless ∧
      (∀ depth files load, (other.evaluate depth files load).Agrees
        (module.evaluate depth files load)) ∧
      ∀ source otherSource text otherText, lex source = .ok ⟨text, tokens⟩ →
        lex otherSource = .ok ⟨otherText, otherTokens⟩ → ∀ depth,
        (workspace.evaluate? depth otherSource).map (·.mapError Failure.unplaced) =
          (workspace.evaluate? depth source).map (·.mapError Failure.unplaced) := by
  obtain ⟨module, other, hmodule, hother, hsame⟩ :=
    ofTokens_rearranged hstatements hlast hothers hotherLast htokens hotherTokens
  refine ⟨module, other, hmodule, hother, hsame, ?_, ?_⟩
  · exact fun depth files load => Module.evaluate_agrees_of_spanless hsame depth files load
  · intro source otherSource text otherText hlex hotherLex depth
    exact Workspace.evaluate?_unplaced (Workspace.parse_eq_ok.2 ⟨hlex, hmodule⟩)
      (Workspace.parse_eq_ok.2 ⟨hotherLex, hother⟩) hsame depth

/-- The statements of `class A []; Null; use Null as n; export n;`. -/
def classFirst : List (List Token) :=
  [[⟨.classWord, "class", ⟨0, 5⟩, ⟨1, 1⟩⟩, ⟨.ident, "A", ⟨6, 7⟩, ⟨1, 7⟩⟩,
      ⟨.leftBracket, "[", ⟨8, 9⟩, ⟨1, 9⟩⟩, ⟨.rightBracket, "]", ⟨9, 10⟩, ⟨1, 10⟩⟩,
      ⟨.semicolon, ";", ⟨10, 11⟩, ⟨1, 11⟩⟩],
    [⟨.null, "Null", ⟨12, 16⟩, ⟨1, 13⟩⟩, ⟨.semicolon, ";", ⟨16, 17⟩, ⟨1, 17⟩⟩],
    [⟨.useWord, "use", ⟨18, 21⟩, ⟨1, 19⟩⟩, ⟨.null, "Null", ⟨22, 26⟩, ⟨1, 23⟩⟩,
      ⟨.asWord, "as", ⟨27, 29⟩, ⟨1, 28⟩⟩, ⟨.ident, "n", ⟨30, 31⟩, ⟨1, 31⟩⟩,
      ⟨.semicolon, ";", ⟨31, 32⟩, ⟨1, 32⟩⟩]]

/-- The statements of `use Null as n; class A []; export n;`. -/
def useFirst : List (List Token) :=
  [[⟨.useWord, "use", ⟨0, 3⟩, ⟨1, 1⟩⟩, ⟨.null, "Null", ⟨4, 8⟩, ⟨1, 5⟩⟩,
      ⟨.asWord, "as", ⟨9, 11⟩, ⟨1, 10⟩⟩, ⟨.ident, "n", ⟨12, 13⟩, ⟨1, 13⟩⟩,
      ⟨.semicolon, ";", ⟨13, 14⟩, ⟨1, 14⟩⟩],
    [⟨.classWord, "class", ⟨15, 20⟩, ⟨1, 16⟩⟩, ⟨.ident, "A", ⟨21, 22⟩, ⟨1, 22⟩⟩,
      ⟨.leftBracket, "[", ⟨23, 24⟩, ⟨1, 24⟩⟩, ⟨.rightBracket, "]", ⟨24, 25⟩, ⟨1, 25⟩⟩,
      ⟨.semicolon, ";", ⟨25, 26⟩, ⟨1, 26⟩⟩]]

/-- The tokens of `export n;` from an offset in the first line on. -/
def exportName (start : Nat) : List Token :=
  [⟨.exportWord, "export", ⟨start, start + 6⟩, ⟨1, start + 1⟩⟩,
    ⟨.ident, "n", ⟨start + 7, start + 8⟩, ⟨1, start + 8⟩⟩,
    ⟨.semicolon, ";", ⟨start + 8, start + 9⟩, ⟨1, start + 9⟩⟩]

theorem statement_order_irrelevant_swapped :
    (noFiles.evaluate? 2 "class A []; Null; use Null as n; export n;").map
        (·.toOption.map Value.text) = some (some "null") ∧
    ∀ depth, (noFiles.evaluate? depth "use Null as n; class A []; export n;").map
        (·.mapError Failure.unplaced) =
      (noFiles.evaluate? depth "class A []; Null; use Null as n; export n;").map
        (·.mapError Failure.unplaced) := by
  have hclass : IsStatement noFiles classFirst[0] :=
    .declared (.intro rfl rfl .missing .missing .missing rfl .nil rfl rfl)
  have hloose : IsStatement noFiles classFirst[1] :=
    .loose (.operand (.literal (.plain rfl (by decide) rfl))) rfl
  have huse : IsStatement noFiles classFirst[2] :=
    .used (.binding rfl (.expr (by decide) (.operand (.literal (.plain rfl (by decide) rfl)))) rfl
      (.name rfl) rfl)
  have hstatements : ∀ statement ∈ classFirst, IsStatement noFiles statement := by
    simpa [classFirst] using ⟨hclass, hloose, huse⟩
  have hexport : IsExport noFiles (exportName 33) _ := .intro rfl (.operand (.name rfl)) rfl
  have hothers : Rearranges classFirst useFirst := by
    have hkept : ∀ other ∈ useFirst, sortOf other ≠ .loose := by decide
    refine ⟨?_, fun other hother hsort => absurd hsort (hkept other hother)⟩
    intro sort hsort
    cases sort with
    | imported => exact .nil
    | used => exact .cons rfl .nil
    | declared => exact .cons rfl .nil
    | loose => exact absurd rfl hsort
  let tokens := classFirst.flatten ++ exportName 33 ++ [⟨.endOfInput, "", ⟨42, 42⟩, ⟨1, 43⟩⟩]
  let otherTokens := useFirst.flatten ++ exportName 27 ++ [⟨.endOfInput, "", ⟨36, 36⟩, ⟨1, 37⟩⟩]
  have hlex : lex "class A []; Null; use Null as n; export n;" =
      .ok ⟨"class A []; Null; use Null as n; export n;", tokens⟩ := by decide +kernel
  have hotherLex : lex "use Null as n; class A []; export n;" =
      .ok ⟨"use Null as n; class A []; export n;", otherTokens⟩ := by decide +kernel
  obtain ⟨_, _, _, _, _, _, htexts⟩ := @statement_order_irrelevant noFiles classFirst useFirst
    (exportName 33) (exportName 27) tokens otherTokens _ hstatements hexport hothers rfl
    (by decide) (by decide)
  exact ⟨by decide +kernel, htexts _ _ _ _ hlex hotherLex⟩

end ConfigNotation
