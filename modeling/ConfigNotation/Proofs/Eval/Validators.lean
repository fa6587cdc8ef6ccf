import ConfigNotation.Proofs.Eval.Building
import ConfigNotation.Proofs.Eval.Conformance

/-!
What a body behind the name of a class comes to. It gives a record; the fields of the class
are taken out of it one after the other, with defaults for those that are not there, and what
it has beside them is looked for last. So of several faults the one that is met first is told.
-/

namespace ConfigNotation

open Evaluation

namespace Class

/-- What is found for a field beside the record that a body gives: the value in
the record, else the default, else nothing if the field is optional. -/
inductive Completes (eval : Evaluator) (ambient : Ambient) (className : String)
    (provided : Record Value) (field : Field TypeExpr) :
    Except EvalError (Option Value) → Prop where
  | given {value : Value} (hgiven : provided.get? field.name = some value) :
      Completes eval ambient className provided field (.ok (some value))
  | default {default : Expr} {value : Value} (hgiven : provided.get? field.name = none)
      (hdefault : field.default = some default)
      (hrun : (eval default ambient).run = some (.ok value)) :
      Completes eval ambient className provided field (.ok (some value))
  | failed {default : Expr} {error : EvalError} (hgiven : provided.get? field.name = none)
      (hdefault : field.default = some default)
      (hrun : (eval default ambient).run = some (.error error)) :
      Completes eval ambient className provided field (.error error)
  | omitted (hgiven : provided.get? field.name = none) (hdefault : field.default = none)
      (hoptional : field.optional = true) :
      Completes eval ambient className provided field (.ok none)
  | missing (hgiven : provided.get? field.name = none) (hdefault : field.default = none)
      (hrequired : field.optional = false) :
      Completes eval ambient className provided field
        (.error (.raise (.missingField field.name className)))

/-- The keys of a record that name none of some fields, in the order of the
record. -/
def undeclared (fields : List (Field TypeExpr)) (provided : Record Value) : List String :=
  provided.keys.filter (· ∉ fields.map (·.name))

/-- Why a body gives no instance of a class: it has no value, its value is no
record, a field gets no value, or, if all of them get theirs, the record has
more keys. -/
inductive InstanceFails (eval : Evaluator) (ambient : Ambient) (classes : ClassTable)
    (cls : Class) (body : Container Expr) : EvalError → Prop where
  | body {error : EvalError} (hbody : (body.evaluate eval ambient).run = some (.error error)) :
      InstanceFails eval ambient classes cls body error
  | kind {value : Value} (hbody : (body.evaluate eval ambient).run = some (.ok value))
      (hother : ∀ provided, value ≠ .object provided) :
      InstanceFails eval ambient classes cls body
        (.raise (.typeMismatch ⟨cls.name, []⟩ s!"instance of {cls.name}" value.typeName))
  | field {provided : Record Value} {error : EvalError}
      (hbody : (body.evaluate eval ambient).run = some (.ok (.object provided)))
      (hfields : BuildFails (Completes eval ambient cls.name provided) classes cls.name
        cls.fields.values error) :
      InstanceFails eval ambient classes cls body error
  | excess {provided : Record Value} {entries : List (String × Value)}
      (hbody : (body.evaluate eval ambient).run = some (.ok (.object provided)))
      (hfields : Builds (Completes eval ambient cls.name provided) classes cls.name
        cls.fields.values entries)
      (hexcess : undeclared cls.fields.values provided ≠ []) :
      InstanceFails eval ambient classes cls body
        (.raise (.unknownFields cls.name (undeclared cls.fields.values provided)))

variable {eval : Evaluator} {ambient : Ambient} {classes : ClassTable} {cls : Class}
  {body : Container Expr}

theorem completed_eq_some_iff {provided : Record Value} {field : Field TypeExpr}
    {outcome : Except EvalError (Option Value)} :
    (completed eval ambient cls provided field).run = some outcome ↔
      Completes eval ambient cls.name provided field outcome := by
  rw [completed]
  cases hgiven : provided.get? field.name with
  | some value =>
      constructor
      · rintro ⟨⟩
        exact .given hgiven
      · rintro (hsame | ⟨hnone, -⟩ | ⟨hnone, -⟩ | ⟨hnone, -⟩ | ⟨hnone, -⟩)
        · cases hgiven.symm.trans hsame
          rfl
        all_goals cases hgiven.symm.trans hnone
  | none =>
      obtain ⟨name, type, optional, _ | default, span⟩ := field
      · cases optional with
        | true =>
            constructor
            · rintro ⟨⟩
              exact .omitted hgiven rfl rfl
            · rintro (hsome | ⟨-, ⟨⟩, -⟩ | ⟨-, ⟨⟩, -⟩ | - | ⟨-, -, ⟨⟩⟩)
              · cases hgiven.symm.trans hsome
              · rfl
        | false =>
            constructor
            · rintro ⟨⟩
              exact .missing hgiven rfl rfl
            · rintro (hsome | ⟨-, ⟨⟩, -⟩ | ⟨-, ⟨⟩, -⟩ | ⟨-, -, ⟨⟩⟩ | -)
              · cases hgiven.symm.trans hsome
              · rfl
      · dsimp only
        rw [map_eq_pure_bind, run_bind_eq_some]
        constructor
        · rintro (⟨error, hrun, rfl⟩ | ⟨value, hrun, ⟨⟩⟩)
          · exact .failed hgiven rfl hrun
          · exact .default hgiven rfl hrun
        · rintro (hsome | ⟨-, ⟨⟩, hrun⟩ | ⟨-, ⟨⟩, hrun⟩ | ⟨-, ⟨⟩, -⟩ | ⟨-, ⟨⟩, -⟩)
          · cases hgiven.symm.trans hsome
          · exact .inr ⟨_, hrun, rfl⟩
          · exact .inl ⟨_, hrun, rfl⟩

theorem WellFormed.undeclared_eq (hcls : cls.WellFormed) (provided : Record Value) :
    provided.keys.filter (fun key => !cls.fields.contains key) =
      undeclared cls.fields.values provided := by
  refine List.filter_congr fun key _ => ?_
  rw [← hcls.keys_eq, Record.contains, Option.not_isSome, Bool.eq_iff_iff, decide_eq_true_iff,
    Option.isNone_iff_eq_none, Record.get?_eq_none_iff]

theorem WellFormed.instantiate_eq_ok_iff (hcls : cls.WellFormed) {value : Value} :
    (cls.instantiate eval ambient classes body).run = some (.ok value) ↔
      ∃ provided record, value = .object record ∧
        (body.evaluate eval ambient).run = some (.ok (.object provided)) ∧
        Builds (Completes eval ambient cls.name provided) classes cls.name cls.fields.values
          record.entries ∧
        undeclared cls.fields.values provided = [] := by
  rw [instantiate, run_bind_eq_ok]
  constructor
  · rintro ⟨found, hbody, hrest⟩
    cases found with
    | object provided =>
        obtain ⟨record, hrecord, hvalue⟩ := run_bind_eq_ok.1 hrest
        rw [hcls.undeclared_eq] at hvalue
        dsimp only at hvalue
        split at hvalue
        · next hnone =>
          exact ⟨provided, record, (run_pure_eq_ok.1 hvalue).symm, hbody,
            (hcls.build_eq_ok_iff completed_eq_some_iff).1 hrecord,
            List.isEmpty_iff.1 hnone⟩
        · exact absurd hvalue run_fail_ne_ok
    | _ => exact absurd hrest run_fail_ne_ok
  · rintro ⟨provided, record, rfl, hbody, hfields, hnone⟩
    have hrecord := (hcls.build_eq_ok_iff completed_eq_some_iff).2 hfields
    refine ⟨_, hbody, run_bind_eq_ok.2 ⟨record, hrecord, ?_⟩⟩
    rw [hcls.undeclared_eq, hnone]
    rfl

theorem WellFormed.instantiate_eq_error_iff (hcls : cls.WellFormed) {error : EvalError} :
    (cls.instantiate eval ambient classes body).run = some (.error error) ↔
      InstanceFails eval ambient classes cls body error := by
  rw [instantiate, run_bind_eq_error]
  constructor
  · rintro (hbody | ⟨found, hbody, hrest⟩)
    · exact .body hbody
    · cases found with
      | object provided =>
          rcases run_bind_eq_error.1 hrest with hfields | ⟨record, hrecord, hvalue⟩
          · exact .field hbody ((build_eq_error_iff completed_eq_some_iff).1 hfields)
          · rw [hcls.undeclared_eq] at hvalue
            dsimp only at hvalue
            split at hvalue
            · cases hvalue
            · next hexcess =>
              cases hvalue
              exact .excess hbody
                ((hcls.build_eq_ok_iff completed_eq_some_iff).1 hrecord)
                fun hnone => hexcess (List.isEmpty_iff.2 hnone)
      | _ =>
          cases hrest
          exact .kind hbody nofun
  · rintro (hbody | ⟨hbody, hother⟩ | ⟨hbody, hfields⟩ | ⟨hbody, hfields, hexcess⟩)
    · exact .inl hbody
    · refine .inr ⟨_, hbody, ?_⟩
      split
      · next provided => exact absurd rfl (hother provided)
      · rfl
    · refine .inr ⟨_, hbody, run_bind_eq_error.2 (.inl ?_)⟩
      exact (build_eq_error_iff completed_eq_some_iff).2 hfields
    · next provided entries =>
      have hrecord : (cls.build classes (completed eval ambient cls provided) .empty
          cls.fields.values).run = some (.ok ⟨entries⟩) :=
        (hcls.build_eq_ok_iff completed_eq_some_iff).2 hfields
      refine .inr ⟨_, hbody, run_bind_eq_error.2 (.inr ⟨_, hrecord, ?_⟩)⟩
      rw [hcls.undeclared_eq]
      dsimp only
      rw [if_neg (mt List.isEmpty_iff.1 hexcess)]
      rfl

end Class

open ConfigNotation.Class

namespace Scope

variable {scope : Scope} {className : String} {cls : Class}

theorem eval_classInstance (hcls : scope.classes.get? className = some cls)
    (hvalidator : cls.parameters = []) (depth : Nat) (span : Span) (body : Container Expr)
    (ambient : Ambient) :
    scope.eval (depth + 1) (.classInstance span className body) ambient =
      (cls.instantiate (scope.eval depth) ambient scope.classes body).within span := by
  rw [eval, evalParts, findClass, hcls, pure_bind, Class.isConstructor, hvalidator]
  rfl

/-- A body gives an instance of a class without parameters exactly if it gives a
record in which each field of the class has a valid value, or else a valid
default in the surroundings of the body, or else is optional, and which has no
more keys. The instance has the values that were found, in the order of the
fields. All that can go wrong is told in this order: the body, its kind, the
first field that gets no value, and last all keys that name no field. -/
theorem class_instance_exact {decls : List ClassDecl}
    (hclasses : ClassTable.registerAll .empty decls = .ok scope.classes)
    (hcls : scope.classes.get? className = some cls)
    (hvalidator : cls.parameters = []) (depth : Nat) (span : Span) (body : Container Expr)
    (ambient : Ambient) :
    cls.name = className ∧
    (∀ value,
      (scope.eval (depth + 1) (.classInstance span className body) ambient).run =
          some (.ok value) ↔
        ∃ provided record, value = .object record ∧
          (body.evaluate (scope.eval depth) ambient).run = some (.ok (.object provided)) ∧
          Builds (Completes (scope.eval depth) ambient className provided) scope.classes className
            cls.fields.values record.entries ∧
          undeclared cls.fields.values provided = []) ∧
    ∀ error,
      (scope.eval (depth + 1) (.classInstance span className body) ambient).run =
          some (.error error) ↔
        ∃ cause, InstanceFails (scope.eval depth) ambient scope.classes cls body cause ∧
          error = cause.within span := by
  have hwell : cls.WellFormed := ClassTable.WellFormed.empty.registerAll hclasses className cls hcls
  obtain rfl := ClassTable.name_of_registerAll hclasses hcls
  rw [eval_classInstance hcls hvalidator]
  refine ⟨rfl, fun value => ?_, fun error => ?_⟩
  · rw [run_within_eq_ok, hwell.instantiate_eq_ok_iff]
  · simp only [run_within_eq_error, hwell.instantiate_eq_error_iff]

/-- A class with a required field and an optional one. -/
def switchClass : Class :=
  ⟨"Switch", [], ⟨[("on", ⟨"on", .reference "Boolean", false, none, ⟨2, 4⟩⟩),
    ("note", ⟨"note", .reference "String", true, none, ⟨4, 6⟩⟩)]⟩⟩

def switchScope : Scope := ⟨⟨[("Switch", switchClass)]⟩, .empty, Store.empty.fileSystem⟩

def switchBody : Container Expr :=
  ⟨.object, [.property "on" (.literal ⟨13, 14⟩ (.boolean true))]⟩

def switchOn : Value := .object ⟨[("on", .boolean true)]⟩

/-- `Switch [@on => True;]` is an instance, `Switch []` lacks a field, and the
further keys of `Switch [@b => Null; @on => True; @a => Null;]` are told in
their order. -/
theorem class_instance_exact_switch :
    ∃ decls, ClassTable.registerAll .empty decls = .ok switchScope.classes ∧
      switchScope.classes.get? "Switch" = some switchClass ∧ switchClass.parameters = [] ∧
      (switchScope.eval 2 (.classInstance ⟨12, 15⟩ "Switch" switchBody) .none).run =
        some (.ok switchOn) ∧
      (switchScope.eval 2 (.classInstance ⟨12, 15⟩ "Switch" ⟨.object, []⟩) .none).run =
        some (.error ((EvalError.raise (.missingField "on" "Switch")).within ⟨12, 15⟩)) ∧
      (switchScope.eval 2 (.classInstance ⟨12, 15⟩ "Switch" ⟨.object,
        [.property "b" (.literal ⟨13, 14⟩ .null),
          .property "on" (.literal ⟨13, 14⟩ (.boolean true)),
          .property "a" (.literal ⟨13, 14⟩ .null)]⟩) .none).run =
        some (.error ((EvalError.raise (.unknownFields "Switch" ["b", "a"])).within ⟨12, 15⟩)) := by
  have hclasses : ClassTable.registerAll .empty
      [⟨"Switch", [], none, [], switchClass.fields.values, ⟨0, 6⟩⟩] = .ok switchScope.classes := rfl
  have hcls : switchScope.classes.get? "Switch" = some switchClass := rfl
  have hexact (body : Container Expr) :=
    class_instance_exact hclasses hcls rfl 1 ⟨12, 15⟩ body .none
  have hfields (provided : Record Value) (hon : provided.get? "on" = some (.boolean true))
      (hnote : provided.get? "note" = none) :
      Builds (Completes (switchScope.eval 1) .none "Switch" provided) switchScope.classes "Switch"
        switchClass.fields.values [("on", .boolean true)] := by
    refine .kept ⟨.given hon, ?_⟩ (.omitted ⟨.omitted hnote rfl rfl, nofun⟩ .nil)
    rintro _ ⟨⟩
    exact (Value.checkDecides _ _ _ _).2 (.builtIn rfl (.boolean true))
  refine ⟨_, hclasses, rfl, rfl, ?_, ?_, ?_⟩
  · exact ((hexact _).2.1 _).2 ⟨⟨[("on", .boolean true)]⟩, _, rfl, rfl, hfields _ rfl rfl, rfl⟩
  · have hlacks : Lacks (Completes (switchScope.eval 1) .none "Switch" .empty) switchScope.classes
        "Switch" ⟨"on", .reference "Boolean", false, none, ⟨2, 4⟩⟩
        (.raise (.missingField "on" "Switch")) :=
      .choice (.missing rfl rfl rfl)
    exact ((hexact _).2.2 _).2 ⟨_, .field rfl (.intro (List.nil_append _).symm .nil hlacks), rfl⟩
  · exact ((hexact _).2.2 _).2 ⟨_, .excess rfl (hfields _ rfl rfl) nofun, rfl⟩

end Scope

end ConfigNotation
