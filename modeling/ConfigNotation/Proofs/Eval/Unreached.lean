import ConfigNotation.Eval.Session
import ConfigNotation.Proofs.Eval.Congruence
import ConfigNotation.Proofs.Eval.Depth
import ConfigNotation.Proofs.Eval.Fields
import ConfigNotation.Proofs.Eval.References
import ConfigNotation.Proofs.Syntax.AliasEnd
import ConfigNotation.Proofs.Syntax.WellFormed

/-!
Cases of the evaluation that no module from a text reaches: a member with a key in an array,
one without in a record, and a path without segments. An evaluation that does something else in
those cases, whatever it is, comes to the same for every module that is well formed.
-/

namespace ConfigNotation

theorem Evaluation.bind_congr_ok {α β : Type} {evaluation : Evaluation α}
    {next other : α → Evaluation β}
    (h : ∀ value, evaluation.run = some (.ok value) → next value = other value) :
    evaluation >>= next = evaluation >>= other := by
  apply ExceptT.ext
  rw [ExceptT.run_bind, ExceptT.run_bind]
  cases hrun : evaluation.run with
  | none => rfl
  | some outcome =>
      cases outcome with
      | error error => rfl
      | ok value => exact congrArg ExceptT.run (h value hrun)

theorem Loading.ofExcept_bind_congr {ε α β : Type} {result : Except ε α}
    {next other : α → Loading ε β} (h : ∀ value, result = .ok value → next value = other value) :
    ofExcept result >>= next = ofExcept result >>= other := by
  cases result with
  | error error => rfl
  | ok value => exact h value rfl

namespace Container

def takes : Value → Member Expr → Bool
  | .array _, member => Grammar.memberKind member ≠ .object
  | .object _, member => Grammar.memberKind member ≠ .array
  | _, _ => false

variable (stop : Evaluation Value)

/-- Adds a member as `add` does, and stops where the member would be left out. -/
def addOr (container : Value) (member : Member Expr) (value : Value) : Evaluation Value :=
  if takes container member then add container member value else stop

def addMembersOr (eval : Evaluator) (ambient : Ambient) (container : Value) :
    List (Member Expr) → Evaluation Value
  | [] => return container
  | member :: rest => do
      let value ← eval member.value (ambient.inside container)
      addMembersOr eval ambient (← addOr stop container member value) rest

def evaluateOr (eval : Evaluator) (ambient : Ambient) (body : Container Expr) :
    Evaluation Value :=
  match body.kind, body.members with
  | .array, members => addMembersOr stop eval ambient (.array []) members
  | .unknown, .spread argument :: rest => do
      let first ← eval argument ambient
      addMembersOr stop eval ambient (← addOr stop (emptyFor first) (.spread argument) first) rest
  | _, members => addMembersOr stop eval ambient (.object .empty) members

/-- A container takes the same members when one was added to it. -/
theorem takes_of_add {container value next : Value} {member : Member Expr}
    (h : (add container member value).run = some (.ok next)) (other : Member Expr) :
    takes next other = takes container other := by
  cases container with
  | array items =>
      cases member with
      | property key argument | element argument =>
          cases h
          rfl
      | spread argument =>
          cases value with
          | array more =>
              cases h
              rfl
          | _ => cases h
  | object record =>
      cases member with
      | property key argument | element argument =>
          cases h
          rfl
      | spread argument =>
          cases value with
          | object more =>
              cases h
              rfl
          | _ => cases h
  | _ =>
      cases h
      rfl

variable {eval : Evaluator} {ambient : Ambient}

theorem addMembersOr_eq {members : List (Member Expr)} {container : Value}
    (h : ∀ member ∈ members, takes container member = true) :
    addMembersOr stop eval ambient container members =
      addMembers eval ambient container members := by
  induction members generalizing container with
  | nil => rfl
  | cons member rest ih =>
      obtain ⟨hmember, hrest⟩ := List.forall_mem_cons.1 h
      rw [addMembersOr, addMembers]
      refine bind_congr fun value => ?_
      rw [addOr, if_pos hmember]
      refine Evaluation.bind_congr_ok fun next hnext => ih fun other hother => ?_
      rw [takes_of_add hnext]
      exact hrest other hother

theorem takes_emptyFor_spread (value : Value) (argument : Expr) :
    takes (emptyFor value) (.spread argument) = true := by
  cases value <;> rfl

/-- A container that is well formed has a use for each of its members. -/
theorem evaluateOr_eq {body : Container Expr} (h : body.WellFormed) :
    body.evaluateOr stop eval ambient = body.evaluate eval ambient := by
  obtain ⟨kind, members⟩ := body
  cases kind with
  | object =>
      refine addMembersOr_eq stop fun member hmember => ?_
      cases member with
      | element value => cases h.array.2 ⟨value, hmember⟩
      | property | spread => rfl
  | array =>
      refine addMembersOr_eq stop fun member hmember => ?_
      cases member with
      | property key value => cases h.object.2 ⟨key, value, hmember⟩
      | element | spread => rfl
  | unknown =>
      have hspreads := h.unknown.1 rfl
      cases members with
      | nil => rfl
      | cons member rest =>
          obtain ⟨⟨argument, rfl⟩, hrest⟩ := List.forall_mem_cons.1 hspreads
          change (eval argument ambient >>= fun first => _) = _
          rw [evaluate_deferred]
          refine bind_congr fun first => ?_
          rw [addOr, if_pos (takes_emptyFor_spread first argument)]
          refine Evaluation.bind_congr_ok fun next hnext => ?_
          refine addMembersOr_eq stop fun other hother => ?_
          obtain ⟨more, rfl⟩ := hrest other hother
          rw [takes_of_add hnext]
          exact takes_emptyFor_spread first more

end Container

section

variable (stop : Evaluation Value)

/-- An instance as `Class.instantiate` makes it, from a body that stops where it
would leave a member out. -/
def Class.instantiateOr (eval : Evaluator) (ambient : Ambient) (classes : ClassTable)
    (cls : Class) (body : Container Expr) : Evaluation Value := do
  match ← Container.evaluateOr stop eval ambient body with
  | .object provided =>
      let record ←
        cls.build classes (completed eval ambient cls provided) .empty cls.fields.values
      let extra := provided.keys.filter fun key => !cls.fields.contains key
      if extra.isEmpty then return .object record
      else .fail (.unknownFields cls.name extra)
  | other =>
      .fail (.typeMismatch ⟨cls.name, []⟩ s!"instance of {cls.name}" other.typeName)

theorem Class.instantiateOr_eq {eval : Evaluator} {ambient : Ambient} (classes : ClassTable)
    (cls : Class) {body : Container Expr} (h : body.WellFormed) :
    cls.instantiateOr stop eval ambient classes body =
      cls.instantiate eval ambient classes body := by
  rw [instantiateOr, Container.evaluateOr_eq stop h]
  rfl

namespace Scope

/-- The value of an expression as `evalParts` gives it, with a stop in the cases
that no expression from a text reaches. -/
def evalPartsOr (scope : Scope) (eval : Evaluator) (ambient : Ambient) : Expr → Evaluation Value
  | .path _ [] => stop
  | .container _ body => body.evaluateOr stop eval ambient
  | .classInstance _ className body => do
      let cls ← scope.findClass className
      if cls.isConstructor then .fail (.missingArguments className)
      else cls.instantiateOr stop eval ambient scope.classes body
  | expr => scope.evalParts eval ambient expr

def evalOr (scope : Scope) : Nat → Evaluator
  | 0, _, _ => .exhausted
  | depth + 1, expr, ambient =>
      (scope.evalPartsOr stop (scope.evalOr depth) ambient expr).within expr.span

variable {scope : Scope}

theorem evalPartsOr_eq {eval : Evaluator} {ambient : Ambient} {expr : Expr}
    (h : expr.OwnFormed) :
    scope.evalPartsOr stop eval ambient expr = scope.evalParts eval ambient expr := by
  cases expr with
  | path span segments =>
      cases segments with
      | nil => exact absurd h.1 (by decide)
      | cons => rfl
  | container span body => exact Container.evaluateOr_eq stop h
  | classInstance span className body =>
      rw [evalPartsOr, evalParts]
      refine bind_congr fun cls => ?_
      rw [Class.instantiateOr_eq stop scope.classes cls h]
  | ident | literal | call | conditional => rfl

/-- An expression that is well formed comes to the same, if the defaults of the
classes are well formed as well. -/
theorem evalOr_eq (hscope : scope.classes.FieldsAre Field.WellFormed) (depth : Nat) :
    Evaluator.AgreeOn Expr.WellFormed Eq (scope.evalOr stop depth) (scope.eval depth) := by
  induction depth with
  | zero => exact fun _ _ _ _ _ => rfl
  | succ depth ih =>
      rintro expr ambient _ hexpr rfl
      have hclose : Ambient.StayClose Eq := ⟨fun h _ => h ▸ rfl, fun h _ _ => h ▸ rfl⟩
      rw [evalOr, eval, evalPartsOr_eq stop hexpr.own]
      rw [evalParts_congr ih hclose rfl
        (fun name cls hcls field hfield => (hscope name cls hcls field hfield).default)
        hexpr.parts (fun _ _ _ => rfl) (fun _ _ _ => rfl) (fun _ _ _ => rfl)]

end Scope

namespace Module

/-- The value of a module as `Module.evaluate` gives it, with a stop in the
cases that no module from a text reaches. -/
def evaluateOr (depth : Nat) (files : FileSystem) (load : FileRef → Loading EvalError Value)
    (module : Module) : Loading EvalError Value := do
  let classes ← .ofExcept (ClassTable.registerAll .empty module.classes)
  let eval (bindings : Record Value) := Scope.evalOr stop ⟨classes, bindings, files⟩ depth
  let imported ← bindImports load .empty module.imports
  let bindings ← .ofEvaluation (bindUses eval imported module.uses)
  .ofEvaluation (eval bindings module.body .none)

theorem bindUses_congr {eval other : Record Value → Evaluator} {uses : List Use}
    (h : ∀ statement ∈ uses, ∀ bindings,
      eval bindings statement.value .none = other bindings statement.value .none)
    (bindings : Record Value) : bindUses eval bindings uses = bindUses other bindings uses := by
  induction uses generalizing bindings with
  | nil => rfl
  | cons first rest ih =>
      obtain ⟨hfirst, hrest⟩ := List.forall_mem_cons.1 h
      rw [bindUses, bindUses, hfirst]
      exact bind_congr fun value => ih hrest _

/-- The fields of the classes of a module that is well formed are well formed. -/
theorem WellFormed.fieldsAre {module : Module} (h : module.WellFormed) {classes : ClassTable}
    (hclasses : ClassTable.registerAll .empty module.classes = .ok classes) :
    classes.FieldsAre Field.WellFormed :=
  ClassTable.FieldsAre.registerAll nofun (fun decl hdecl => (h.classes decl hdecl).fields) hclasses

theorem evaluateOr_eq {module : Module} (h : module.WellFormed) (depth : Nat)
    (files : FileSystem) (load : FileRef → Loading EvalError Value) :
    module.evaluateOr stop depth files load = module.evaluate depth files load := by
  rw [evaluateOr, evaluate]
  refine Loading.ofExcept_bind_congr fun classes hclasses => ?_
  have hagree (bindings : Record Value) :=
    @Scope.evalOr_eq stop ⟨classes, bindings, files⟩ (h.fieldsAre hclasses) depth
  refine bind_congr fun imported => ?_
  have huses := bindUses_congr (fun statement hstatement bindings =>
    hagree bindings _ .none .none (h.uses statement hstatement).1 rfl) imported
  rw [huses]
  exact bind_congr fun bindings =>
    congrArg _ (hagree bindings module.body .none .none h.body rfl)

end Module

end

/-- A module that is read from the tokens of a text is well formed everywhere,
and its evaluation reaches none of the cases in which a member is left out or a
path is empty: it comes to the same whatever is done in them. -/
theorem parsed_module_well_formed {workspace : Workspace} {source : String} {lexed : Lexed}
    {module : Module} (hlex : lex source = .ok lexed)
    (hmodule : Module.ofTokens workspace lexed.tokens = .ok module) :
    module.WellFormed ∧ ∀ (stop : Evaluation Value) (depth : Nat) (files : FileSystem)
      (load : FileRef → Loading EvalError Value),
        module.evaluateOr stop depth files load = module.evaluate depth files load := by
  have hformed := Module.wellFormed_of_ofTokens hlex hmodule
  exact ⟨hformed, fun stop depth files load => Module.evaluateOr_eq stop hformed depth files load⟩

/-- A source with containers of two kinds, a class with an object type, and a
pattern. -/
def manySortedSource : String :=
  "class P(...b) [@k: [@i;];]; use [x] from [@* => a.b;]; export [...x ? a;];"

theorem parsed_module_well_formed_many_sorted :
    ∃ lexed module, lex manySortedSource = .ok lexed ∧
      Module.ofTokens noFiles lexed.tokens = .ok module ∧ module.WellFormed ∧
      ∀ (stop : Evaluation Value) (depth : Nat) (files : FileSystem)
        (load : FileRef → Loading EvalError Value),
          module.evaluateOr stop depth files load = module.evaluate depth files load := by
  have hparses : (noFiles.parse manySortedSource).toOption.isSome = true := by decide +kernel
  cases hparse : noFiles.parse manySortedSource with
  | error failure =>
      rw [hparse] at hparses
      cases hparses
  | ok parsed =>
      obtain ⟨lexed, module⟩ := parsed
      obtain ⟨hlex, hmodule⟩ := Workspace.parse_eq_ok.1 hparse
      obtain ⟨hformed, hsame⟩ := parsed_module_well_formed hlex hmodule
      exact ⟨lexed, module, hlex, hmodule, hformed, hsame⟩

end ConfigNotation
