import Mathlib.Data.List.Forall2
import ConfigNotation.Proofs.Eval.Building
import ConfigNotation.Proofs.Eval.Conformance
import ConfigNotation.Proofs.Eval.Surroundings

/-!
What a call of a class comes to. The arguments are evaluated and spread first; then each
parameter has the value in its place, and the fields take their defaults among the parameters.
-/

namespace ConfigNotation

open Evaluation

/-- What a parameter takes of some values: the one in its place, or all from
there on. -/
def Parameter.taken (values : List Value) (place : Nat) (parameter : Parameter) : Value :=
  if parameter.isRest then .array (values.drop place) else values.getD place .undefined

namespace Class

section

variable (eval : Evaluator) (ambient : Ambient)

/-- What an argument brings: its value, or the elements of the array that it
spreads. -/
inductive Brings (argument : Argument Expr) : Except EvalError (List Value) → Prop where
  | value {value : Value} (hplain : argument.isSpread = false)
      (hrun : (eval argument.value ambient).run = some (.ok value)) :
      Brings argument (.ok [value])
  | items {items : List Value} (hspread : argument.isSpread = true)
      (hrun : (eval argument.value ambient).run = some (.ok (.array items))) :
      Brings argument (.ok items)
  | failed {error : EvalError}
      (hrun : (eval argument.value ambient).run = some (.error error)) :
      Brings argument (.error error)
  | other {value : Value} (hspread : argument.isSpread = true)
      (hrun : (eval argument.value ambient).run = some (.ok value))
      (hother : ∀ items, value ≠ .array items) :
      Brings argument
        (.error ((EvalError.raise (.spreadArgument value.typeName)).within argument.value.span))

def Expands (arguments : List (Argument Expr)) (values : List Value) : Prop :=
  ∃ parts, List.Forall₂ (fun argument items => Brings eval ambient argument (.ok items))
    arguments parts ∧ values = parts.flatten

/-- The first argument that brings nothing gives the error. -/
inductive ExpandFails (arguments : List (Argument Expr)) (error : EvalError) : Prop where
  | intro {before after : List (Argument Expr)} {argument : Argument Expr}
      (harguments : arguments = before ++ argument :: after)
      (hbefore : ∀ earlier ∈ before, ∃ items, Brings eval ambient earlier (.ok items))
      (hargument : Brings eval ambient argument (.error error))

end

/-- Names are bound by parameters: the last one of a name says what it is, and
other names are those of the outer record. -/
structure Binds (parameters : List Parameter) (values : List Value)
    (outer bound : Record Value) : Prop where
  last : ∀ before parameter after, parameters = before ++ parameter :: after →
    (∀ later ∈ after, later.name ≠ parameter.name) →
    bound.get? parameter.name = some (parameter.taken values before.length)
  other : ∀ name, (∀ parameter ∈ parameters, parameter.name ≠ name) →
    bound.get? name = outer.get? name

/-- What a constructor finds for a field: its default, which an optional field
takes only if it is neither null nor undefined. -/
inductive Constructs (eval : Evaluator) (ambient : Ambient) (className : String)
    (field : Field TypeExpr) : Except EvalError (Option Value) → Prop where
  | kept {default : Expr} {value : Value} (hdefault : field.default = some default)
      (hrun : (eval default ambient).run = some (.ok value))
      (hkeep : field.optional = true → value ≠ .null ∧ value ≠ .undefined) :
      Constructs eval ambient className field (.ok (some value))
  | skipped {default : Expr} {value : Value} (hdefault : field.default = some default)
      (hrun : (eval default ambient).run = some (.ok value)) (hoptional : field.optional = true)
      (hnullish : value = .null ∨ value = .undefined) :
      Constructs eval ambient className field (.ok none)
  | failed {default : Expr} {error : EvalError} (hdefault : field.default = some default)
      (hrun : (eval default ambient).run = some (.error error)) :
      Constructs eval ambient className field (.error error)
  | omitted (hdefault : field.default = none) (hoptional : field.optional = true) :
      Constructs eval ambient className field (.ok none)
  | missing (hdefault : field.default = none) (hrequired : field.optional = false) :
      Constructs eval ambient className field
        (.error (.raise (.missingConstructorValue field.name className)))

/-- Why a call gives no instance of a class: an argument brings nothing, or a
field gets no value among the parameters. -/
inductive CallFails (eval : Evaluator) (ambient : Ambient) (classes : ClassTable) (cls : Class)
    (arguments : List (Argument Expr)) : EvalError → Prop where
  | arguments {error : EvalError} (harguments : ExpandFails eval ambient arguments error) :
      CallFails eval ambient classes cls arguments error
  | field {values : List Value} {bound : Record Value} {error : EvalError}
      (hvalues : Expands eval ambient arguments values)
      (hbound : Binds cls.parameters values ambient.parameters bound)
      (hfields : BuildFails (Constructs eval { ambient with parameters := bound } cls.name)
        classes cls.name cls.fields.values error) :
      CallFails eval ambient classes cls arguments error

section

variable {eval : Evaluator} {ambient : Ambient} {arguments : List (Argument Expr)}

def brought (eval : Evaluator) (ambient : Ambient) (argument : Argument Expr) :
    Evaluation (List Value) := do
  match argument.isSpread, ← eval argument.value ambient with
  | false, value => return [value]
  | true, .array items => return items
  | true, value => (fail (.spreadArgument value.typeName)).within argument.value.span

theorem argumentValues_cons (argument : Argument Expr) (rest : List (Argument Expr)) :
    argumentValues eval ambient (argument :: rest) =
      brought eval ambient argument >>= fun items =>
        argumentValues eval ambient rest >>= fun more => pure (items ++ more) := by
  obtain ⟨isSpread, expr⟩ := argument
  rw [argumentValues, brought, bind_assoc]
  refine bind_congr fun value => ?_
  cases isSpread with
  | false => rfl
  | true => cases value <;> rfl

theorem brought_eq_some_iff {argument : Argument Expr}
    {outcome : Except EvalError (List Value)} :
    (brought eval ambient argument).run = some outcome ↔
      Brings eval ambient argument outcome := by
  rw [brought, run_bind_eq_some]
  constructor
  · rintro (⟨error, hrun, rfl⟩ | ⟨value, hrun, hbrought⟩)
    · exact .failed hrun
    · split at hbrought
      · next hplain =>
        cases hbrought
        exact .value hplain hrun
      · next hspread =>
        cases hbrought
        exact .items hspread hrun
      · next hspread hother =>
        cases hbrought
        exact .other hspread hrun hother
  · rintro (⟨hplain, hrun⟩ | ⟨hspread, hrun⟩ | hrun | ⟨hspread, hrun, hother⟩)
    · refine .inr ⟨_, hrun, ?_⟩
      rw [hplain]
      rfl
    · refine .inr ⟨_, hrun, ?_⟩
      rw [hspread]
      rfl
    · exact .inl ⟨_, hrun, rfl⟩
    · refine .inr ⟨_, hrun, ?_⟩
      rw [hspread]
      split
      · next hfalse => cases hfalse
      · exact absurd rfl (hother _)
      · rfl

theorem argumentValues_eq_ok_iff {values : List Value} :
    (argumentValues eval ambient arguments).run = some (.ok values) ↔
      Expands eval ambient arguments values := by
  induction arguments generalizing values with
  | nil =>
      rw [argumentValues, run_pure_eq_ok]
      constructor
      · rintro rfl
        exact ⟨[], .nil, rfl⟩
      · rintro ⟨_, ⟨⟩, rfl⟩
        rfl
  | cons argument rest ih =>
      simp only [argumentValues_cons, run_bind_eq_ok, run_pure_eq_ok, brought_eq_some_iff, ih]
      constructor
      · rintro ⟨items, hitems, _, ⟨parts, hparts, rfl⟩, rfl⟩
        exact ⟨items :: parts, .cons hitems hparts, rfl⟩
      · rintro ⟨_, ⟨⟩ | ⟨hitems, hparts⟩, rfl⟩
        exact ⟨_, hitems, _, ⟨_, hparts, rfl⟩, rfl⟩

theorem argumentValues_eq_error_iff {error : EvalError} :
    (argumentValues eval ambient arguments).run = some (.error error) ↔
      ExpandFails eval ambient arguments error := by
  induction arguments with
  | nil =>
      refine iff_of_false nofun ?_
      rintro ⟨harguments, -, -⟩
      exact nomatch List.append_eq_nil_iff.1 harguments.symm
  | cons argument rest ih =>
      simp only [argumentValues_cons, run_bind_eq_error, brought_eq_some_iff, ih]
      constructor
      · rintro (hargument | ⟨items, hitems, ⟨harguments, hbefore, hargument⟩ | ⟨_, _, hnone⟩⟩)
        · exact .intro (List.nil_append _).symm nofun hargument
        · exact .intro (congrArg (argument :: ·) harguments)
            (List.forall_mem_cons.2 ⟨⟨items, hitems⟩, hbefore⟩) hargument
        · cases hnone
      · rintro ⟨harguments, hbefore, hargument⟩
        rcases List.cons_eq_append_iff.1 harguments with ⟨rfl, hrest⟩ | ⟨before, rfl, rfl⟩
        · cases hrest
          exact .inl hargument
        · obtain ⟨⟨items, hitems⟩, hbefore⟩ := List.forall_mem_cons.1 hbefore
          exact .inr ⟨items, hitems, .inl (.intro rfl hbefore hargument)⟩

end

section

variable {parameters : List Parameter} {values : List Value} {outer bound other : Record Value}

theorem taken_succ (parameter : Parameter) (values : List Value) (place : Nat) :
    parameter.taken values (place + 1) = parameter.taken values.tail place := by
  cases values <;> simp [Parameter.taken]

theorem Binds.nil (values : List Value) (outer : Record Value) : Binds [] values outer outer where
  last _ _ _ hsplit := nomatch List.append_eq_nil_iff.1 hsplit.symm
  other _ _ := rfl

theorem Binds.cons {parameter : Parameter}
    (h : Binds parameters values.tail
      (outer.insert parameter.name (parameter.taken values 0)) bound) :
    Binds (parameter :: parameters) values outer bound where
  last before own after hsplit hlater := by
    cases before with
    | nil =>
        cases hsplit
        rw [h.other _ hlater, Record.get?_insert, if_pos rfl]
        rfl
    | cons first before =>
        cases hsplit
        rw [h.last before own after rfl hlater, List.length_cons, taken_succ]
  other name hname := by
    obtain ⟨hfirst, hrest⟩ := List.forall_mem_cons.1 hname
    rw [h.other name hrest, Record.get?_insert, if_neg hfirst.symm]

/-- A rest parameter leaves no values, so that the look-ups are right if it is
the last one. -/
theorem binds_bindParameters (outer : Record Value) (values : List Value)
    (hrest : ∀ parameter ∈ parameters.dropLast, parameter.isRest = false) :
    Binds parameters values outer (bindParameters outer parameters values) := by
  induction parameters generalizing outer values with
  | nil => exact .nil values outer
  | cons parameter rest ih =>
      obtain ⟨name, isRest⟩ := parameter
      apply Binds.cons
      cases isRest with
      | true =>
          -- It is the last one, so that no later parameter misses the values it takes.
          cases rest with
          | nil => exact .nil _ _
          | cons next rest => cases hrest ⟨name, true⟩ List.mem_cons_self
      | false =>
          have hplain : ∀ parameter ∈ rest.dropLast, parameter.isRest = false := by
            cases rest with
            | nil => nofun
            | cons next rest => exact fun _ hmem => hrest _ (List.mem_cons_of_mem _ hmem)
          have htaken : Parameter.taken values 0 ⟨name, false⟩ = values.headD .undefined := by
            cases values <;> rfl
          rw [htaken]
          exact ih _ _ hplain

/-- A name of parameters is that of a last one. -/
theorem exists_last_named {name : String} (h : ∃ parameter ∈ parameters, parameter.name = name) :
    ∃ before parameter after, parameters = before ++ parameter :: after ∧ parameter.name = name ∧
      ∀ later ∈ after, later.name ≠ parameter.name := by
  induction parameters with
  | nil =>
      obtain ⟨_, ⟨⟩, _⟩ := h
  | cons parameter rest ih =>
      by_cases hlater : ∃ parameter ∈ rest, parameter.name = name
      · obtain ⟨before, own, after, rfl, hown, hafter⟩ := ih hlater
        exact ⟨parameter :: before, own, after, rfl, hown, hafter⟩
      · obtain ⟨own, hmem, rfl⟩ := h
        rcases List.mem_cons.1 hmem with rfl | hmem
        · exact ⟨[], own, rest, rfl, rfl, fun later hmem heq => hlater ⟨later, hmem, heq⟩⟩
        · exact absurd ⟨own, hmem, rfl⟩ hlater

/-- What is bound is known for all names. -/
theorem Binds.get?_eq (h : Binds parameters values outer bound)
    (hother : Binds parameters values outer other) (name : String) :
    bound.get? name = other.get? name := by
  by_cases hname : ∃ parameter ∈ parameters, parameter.name = name
  · obtain ⟨before, parameter, after, hsplit, rfl, hlater⟩ := exists_last_named hname
    rw [h.last before parameter after hsplit hlater,
      hother.last before parameter after hsplit hlater]
  · have hnone : ∀ parameter ∈ parameters, parameter.name ≠ name :=
      fun parameter hparameter heq => hname ⟨parameter, hparameter, heq⟩
    rw [h.other name hnone, hother.other name hnone]

end

section

variable {eval : Evaluator} {ambient : Ambient} {cls : Class} {arguments : List (Argument Expr)}
  {classes : ClassTable} {values : List Value} {bound : Record Value}

theorem skips_iff {optional : Bool} {value : Value} :
    (optional && value.isNullish) = true ↔
      optional = true ∧ (value = .null ∨ value = .undefined) := by
  rw [Bool.and_eq_true_iff]
  cases value <;> simp [Value.isNullish]

theorem constructed_eq_some_iff {field : Field TypeExpr}
    {outcome : Except EvalError (Option Value)} :
    (constructed eval ambient cls field).run = some outcome ↔
      Constructs eval ambient cls.name field outcome := by
  obtain ⟨name, type, optional, _ | default, span⟩ := field
  · cases optional with
    | true =>
        constructor
        · rintro ⟨⟩
          exact .omitted rfl rfl
        · rintro (⟨⟨⟩, -⟩ | ⟨⟨⟩, -⟩ | ⟨⟨⟩, -⟩ | - | ⟨-, ⟨⟩⟩)
          rfl
    | false =>
        constructor
        · rintro ⟨⟩
          exact .missing rfl rfl
        · rintro (⟨⟨⟩, -⟩ | ⟨⟨⟩, -⟩ | ⟨⟨⟩, -⟩ | ⟨-, ⟨⟩⟩ | -)
          rfl
  · rw [constructed]
    dsimp only
    rw [run_bind_eq_some]
    constructor
    · rintro (⟨error, hrun, rfl⟩ | ⟨value, hrun, hchosen⟩)
      · exact .failed rfl hrun
      · split at hchosen
        · next hskip =>
          cases hchosen
          obtain ⟨hoptional, hnullish⟩ := skips_iff.1 hskip
          exact .skipped rfl hrun hoptional hnullish
        · next hkeep =>
          cases hchosen
          exact .kept rfl hrun fun hoptional =>
            not_or.1 fun hnullish => hkeep (skips_iff.2 ⟨hoptional, hnullish⟩)
    · rintro (⟨⟨⟩, hrun, hkeep⟩ | ⟨⟨⟩, hrun, hoptional, hnullish⟩ | ⟨⟨⟩, hrun⟩ | ⟨⟨⟩, -⟩ | ⟨⟨⟩, -⟩)
      · refine .inr ⟨_, hrun, ?_⟩
        rw [if_neg]
        · rfl
        · intro hskip
          obtain ⟨hoptional, hnullish⟩ := skips_iff.1 hskip
          exact not_or.2 (hkeep hoptional) hnullish
      · refine .inr ⟨_, hrun, ?_⟩
        rw [if_pos (skips_iff.2 ⟨hoptional, hnullish⟩)]
        rfl
      · exact .inl ⟨_, hrun, rfl⟩

theorem WellFormed.construct_eq_ok_iff (hcls : cls.WellFormed) {value : Value} :
    (cls.construct eval ambient classes arguments).run = some (.ok value) ↔
      ∃ values record, value = .object record ∧ Expands eval ambient arguments values ∧
        Builds (Constructs eval
            { ambient with parameters := bindParameters ambient.parameters cls.parameters values }
            cls.name)
          classes cls.name cls.fields.values record.entries := by
  simp only [construct, run_bind_eq_ok, run_pure_eq_ok, argumentValues_eq_ok_iff,
    hcls.build_eq_ok_iff constructed_eq_some_iff]
  constructor
  · rintro ⟨values, hvalues, record, hfields, rfl⟩
    exact ⟨values, record, rfl, hvalues, hfields⟩
  · rintro ⟨values, record, rfl, hvalues, hfields⟩
    exact ⟨values, hvalues, record, hfields, rfl⟩

/-- The fields find the same wherever the names are bound by the parameters. -/
theorem Binds.constructs_eq (heval : eval.Respects fun _ => True)
    (hrest : ∀ parameter ∈ cls.parameters.dropLast, parameter.isRest = false)
    (h : Binds cls.parameters values ambient.parameters bound) :
    Constructs eval { ambient with parameters := bound } cls.name =
      Constructs eval { ambient with
        parameters := bindParameters ambient.parameters cls.parameters values } cls.name := by
  have hagree : Ambient.AgreeOn (fun _ => True) { ambient with parameters := bound }
      { ambient with parameters := bindParameters ambient.parameters cls.parameters values } :=
    ⟨fun _ => rfl, fun _ => rfl, h.get?_eq (binds_bindParameters _ _ hrest)⟩
  funext field outcome
  rw [← propext constructed_eq_some_iff, ← propext constructed_eq_some_iff,
    constructed_congr heval hagree cls fun default _ => .any default]

theorem construct_eq_error_iff
    (hrest : ∀ parameter ∈ cls.parameters.dropLast, parameter.isRest = false)
    (heval : eval.Respects fun _ => True) {error : EvalError} :
    (cls.construct eval ambient classes arguments).run = some (.error error) ↔
      CallFails eval ambient classes cls arguments error := by
  rw [construct, run_bind_eq_error, argumentValues_eq_error_iff]
  constructor
  · rintro (harguments | ⟨values, hvalues, hbuild⟩)
    · exact .arguments harguments
    · rcases run_bind_eq_error.1 hbuild with hfields | ⟨_, _, hnone⟩
      · exact .field (argumentValues_eq_ok_iff.1 hvalues) (binds_bindParameters _ _ hrest)
          ((build_eq_error_iff constructed_eq_some_iff).1 hfields)
      · cases hnone
  · rintro (harguments | ⟨hvalues, hbound, hfields⟩)
    · exact .inl harguments
    · refine .inr ⟨_, argumentValues_eq_ok_iff.2 hvalues, run_bind_eq_error.2 (.inl ?_)⟩
      rw [hbound.constructs_eq heval hrest] at hfields
      exact (build_eq_error_iff constructed_eq_some_iff).2 hfields

end

end Class

open ConfigNotation.Class

namespace Scope

variable {scope : Scope} {className : String} {cls : Class}

/-- Expressions find the same wherever the parameters look the same. -/
theorem eval_respects_all (scope : Scope) (depth : Nat) :
    Evaluator.Respects (fun _ => True) (scope.eval depth) := by
  have hscope : scope.DefaultsName fun _ => True := fun _ _ _ _ _ default _ => .any default
  exact eval_congr hscope depth

theorem eval_call (hcls : scope.classes.get? className = some cls)
    (hconstructor : cls.parameters ≠ []) (depth : Nat) (span : Span)
    (arguments : List (Argument Expr)) (ambient : Ambient) :
    scope.eval (depth + 1) (.call span className arguments) ambient =
      (cls.construct (scope.eval depth) ambient scope.classes arguments).within span := by
  rw [eval, evalParts, findClass, hcls, pure_bind, Class.isConstructor,
    List.isEmpty_eq_false_iff.2 hconstructor]
  rfl

theorem eval_call_validator (hcls : scope.classes.get? className = some cls)
    (hvalidator : cls.parameters = []) (depth : Nat) (span : Span)
    (arguments : List (Argument Expr)) (ambient : Ambient) :
    scope.eval (depth + 1) (.call span className arguments) ambient =
      (fail (.unexpectedArguments className)).within span := by
  rw [eval, evalParts, findClass, hcls, pure_bind, Class.isConstructor, hvalidator]
  rfl

/-- A call of a class with parameters, of which only the last one is a rest
parameter, gives an instance exactly if the arguments bring values and, among
the names that these bind, each field has a valid default, or else is optional
with a default that is null or undefined or with none. The instance has the
values that were kept, in the order of the fields. The first argument that
brings nothing, or else the first field that gets no value, gives the error. -/
theorem constructor_call_exact {decls : List ClassDecl}
    (hclasses : ClassTable.registerAll .empty decls = .ok scope.classes)
    (hcls : scope.classes.get? className = some cls)
    (hrest : ∀ parameter ∈ cls.parameters.dropLast, parameter.isRest = false) (depth : Nat)
    (span : Span) (arguments : List (Argument Expr)) (ambient : Ambient) :
    cls.name = className ∧
    (cls.parameters = [] →
      (scope.eval (depth + 1) (.call span className arguments) ambient).run =
        some (.error ((EvalError.raise (.unexpectedArguments className)).within span))) ∧
    (cls.parameters ≠ [] →
      (∀ value,
        (scope.eval (depth + 1) (.call span className arguments) ambient).run =
            some (.ok value) ↔
          ∃ values bound record, value = .object record ∧
            Expands (scope.eval depth) ambient arguments values ∧
            Binds cls.parameters values ambient.parameters bound ∧
            Builds (Constructs (scope.eval depth) { ambient with parameters := bound } className)
              scope.classes className cls.fields.values record.entries) ∧
      ∀ error,
        (scope.eval (depth + 1) (.call span className arguments) ambient).run =
            some (.error error) ↔
          ∃ cause, CallFails (scope.eval depth) ambient scope.classes cls arguments cause ∧
            error = cause.within span) := by
  have hwell : cls.WellFormed := ClassTable.WellFormed.empty.registerAll hclasses className cls hcls
  have heval := scope.eval_respects_all depth
  obtain rfl := ClassTable.name_of_registerAll hclasses hcls
  refine ⟨rfl, fun hvalidator => ?_, fun hconstructor => ⟨fun value => ?_, fun error => ?_⟩⟩
  · rw [eval_call_validator hcls hvalidator]
    rfl
  · rw [eval_call hcls hconstructor, run_within_eq_ok, hwell.construct_eq_ok_iff]
    constructor
    · rintro ⟨values, record, rfl, hvalues, hfields⟩
      exact ⟨values, _, record, rfl, hvalues, binds_bindParameters _ _ hrest, hfields⟩
    · rintro ⟨values, bound, record, rfl, hvalues, hbound, hfields⟩
      rw [hbound.constructs_eq heval hrest] at hfields
      exact ⟨values, record, rfl, hvalues, hfields⟩
  · simp only [eval_call hcls hconstructor, run_within_eq_error,
      construct_eq_error_iff hrest heval]

/-- `class List(head, ...rest) [@head?: Any => head; @rest: Any => rest;]`. -/
def listClass : Class :=
  ⟨"List", [⟨"head", false⟩, ⟨"rest", true⟩],
    ⟨[("head", ⟨"head", .any, true, some (.ident ⟨3, 4⟩ "head"), ⟨2, 5⟩⟩),
      ("rest", ⟨"rest", .any, false, some (.ident ⟨6, 7⟩ "rest"), ⟨5, 8⟩⟩)]⟩⟩

/-- The class, with a list `flags` of null, true and false. -/
def listScope : Scope :=
  ⟨⟨[("List", listClass)]⟩, ⟨[("flags", .array [.null, .boolean true, .boolean false])]⟩,
    Store.empty.fileSystem⟩

/-- In `List(...flags)` the first flag is null, so it is skipped, and the others
are the rest; `List(...True)` spreads no array. -/
theorem constructor_call_exact_list :
    ∃ decls, ClassTable.registerAll .empty decls = .ok listScope.classes ∧
      listScope.classes.get? "List" = some listClass ∧
      (∀ parameter ∈ listClass.parameters.dropLast, parameter.isRest = false) ∧
      listClass.parameters ≠ [] ∧
      (listScope.eval 2 (.call ⟨9, 14⟩ "List" [⟨true, .ident ⟨12, 13⟩ "flags"⟩]) .none).run =
        some (.ok (.object ⟨[("rest", .array [.boolean true, .boolean false])]⟩)) ∧
      (listScope.eval 2
        (.call ⟨9, 14⟩ "List" [⟨true, .literal ⟨12, 13⟩ (.boolean true)⟩]) .none).run =
        some (.error ((EvalError.raise (.spreadArgument "boolean")).within ⟨12, 13⟩)) := by
  have hclasses : ClassTable.registerAll .empty
      [⟨"List", listClass.parameters, none, [], listClass.fields.values, ⟨0, 8⟩⟩] =
        .ok listScope.classes := rfl
  have hcls : listScope.classes.get? "List" = some listClass := rfl
  have hrest : ∀ parameter ∈ listClass.parameters.dropLast, parameter.isRest = false := by decide
  have hconstructor : listClass.parameters ≠ [] := nofun
  have hexact (arguments : List (Argument Expr)) :=
    (constructor_call_exact hclasses hcls hrest 1 ⟨9, 14⟩ arguments .none).2.2 hconstructor
  refine ⟨_, hclasses, hcls, hrest, hconstructor, ?_, ?_⟩
  · have hvalues : Expands (listScope.eval 1) .none [⟨true, .ident ⟨12, 13⟩ "flags"⟩]
        [.null, .boolean true, .boolean false] := ⟨_, .cons (.items rfl rfl) .nil, rfl⟩
    have hbound := binds_bindParameters .empty [.null, .boolean true, .boolean false] hrest
    refine ((hexact _).1 _).2 ⟨_, _, _, rfl, hvalues, hbound, ?_⟩
    refine .omitted ⟨.skipped rfl rfl rfl (.inl rfl), nofun⟩ (.kept ⟨.kept rfl rfl nofun, ?_⟩ .nil)
    exact fun value _ => value.check_any _ _
  · have hrun : (listScope.eval 1 (.literal ⟨12, 13⟩ (.boolean true)) .none).run =
        some (.ok (.boolean true)) := rfl
    have hother : Brings (listScope.eval 1) .none ⟨true, .literal ⟨12, 13⟩ (.boolean true)⟩
        (.error ((EvalError.raise (.spreadArgument (Value.boolean true).typeName)).within
          ⟨12, 13⟩)) :=
      .other rfl hrun nofun
    exact ((hexact _).2 _).2
      ⟨_, .arguments (.intro (List.nil_append _).symm nofun hother), rfl⟩

end Scope

end ConfigNotation
