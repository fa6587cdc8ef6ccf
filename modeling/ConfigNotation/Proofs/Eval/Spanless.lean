import ConfigNotation.Eval.Conformance
import ConfigNotation.Proofs.Eval.Loading
import ConfigNotation.Proofs.Syntax.Spanless

/-!
Evaluation without spans. Spans only say where an error arose: leaving them out of the
syntax changes no value, and no fault of an error.
-/

namespace ConfigNotation

namespace Record

variable {α β : Type}

def mapValues (f : α → β) (record : Record α) : Record β :=
  ⟨record.entries.map fun entry => (entry.1, f entry.2)⟩

@[simp] theorem get?_mapValues (f : α → β) (record : Record α) (key : String) :
    (record.mapValues f).get? key = (record.get? key).map f := by
  obtain ⟨entries⟩ := record
  rw [get?, get?, mapValues]
  dsimp only
  induction entries with
  | nil => rfl
  | cons entry rest ih =>
      rw [List.map_cons, lookup, lookup, ih]
      split <;> rfl

@[simp] theorem contains_mapValues (f : α → β) (record : Record α) (key : String) :
    (record.mapValues f).contains key = record.contains key := by
  rw [contains, get?_mapValues, Option.isSome_map, contains]

@[simp] theorem values_mapValues (f : α → β) (record : Record α) :
    (record.mapValues f).values = record.values.map f := by
  rw [values, mapValues, values, List.map_map, List.map_map]
  rfl

/-- Insertion and a change of all values can trade places, since the place of an
entry only depends on the keys. -/
theorem insert_mapValues (f : α → β) (record : Record α) (key : String) (value : α) :
    (record.mapValues f).insert key (f value) = (record.insert key value).mapValues f := by
  obtain ⟨entries⟩ := record
  rw [insert, insert, mapValues, mapValues]
  congr 1
  induction entries with
  | nil => rfl
  | cons entry rest ih =>
      rw [List.map_cons, put, put, ih]
      split <;> rfl

/-- A record that is built from changed entries is the changed record: which
entry comes first and which value is kept is decided by the keys. -/
theorem ofEntries_mapValues (f : α → β) (entries : List (String × α)) :
    ofEntries (entries.map fun entry => (entry.1, f entry.2)) =
      (ofEntries entries).mapValues f := by
  have hinsert (record : Record α) :
      (record.mapValues f).insertAll (entries.map fun entry => (entry.1, f entry.2)) =
        (record.insertAll entries).mapValues f := by
    induction entries generalizing record with
    | nil => rfl
    | cons entry rest ih =>
        have hstep := ih (record.insert entry.1 entry.2)
        rw [← insert_mapValues] at hstep
        exact hstep
  exact hinsert empty

end Record

namespace Field

@[simp] theorem name_spanless (field : Field TypeExpr) : field.spanless.name = field.name := rfl

@[simp] theorem type_spanless (field : Field TypeExpr) :
    field.spanless.type = field.type.spanless := rfl

@[simp] theorem isRequired_spanless (field : Field TypeExpr) :
    field.spanless.isRequired = field.isRequired := by
  rw [isRequired, isRequired, spanless, Option.isNone_map]

end Field

def Class.spanless (cls : Class) : Class := { cls with fields := cls.fields.mapValues .spanless }

namespace Class

theorem isConstructor_spanless (cls : Class) : cls.spanless.isConstructor = cls.isConstructor := rfl

@[simp] theorem values_fields_spanless (cls : Class) :
    cls.spanless.fields.values = cls.fields.values.map .spanless :=
  Record.values_mapValues _ _

@[simp] theorem contains_fields_spanless (cls : Class) (name : String) :
    cls.spanless.fields.contains name = cls.fields.contains name :=
  Record.contains_mapValues _ _ name

end Class

def ClassTable.spanless (classes : ClassTable) : ClassTable := classes.mapValues .spanless

/-- A name is found in both tables or in neither, so that forgetting spans
changes no unknown class into a known one. -/
theorem ClassTable.get?_spanless (classes : ClassTable) (name : String) :
    classes.spanless.get? name = (classes.get? name).map .spanless :=
  classes.get?_mapValues _ name

namespace Value

variable {classes : ClassTable}

/-- Which names are undeclared depends on the names of fields only, and the
message has no span in it. -/
theorem checkNames_spanless (record : Record Value) (fields : List (Field TypeExpr))
    (place : Place) (className : Option String) :
    checkNames record (fields.map .spanless) place className =
      checkNames record fields place className := by
  simp only [checkNames, List.any_map]
  rfl

/-- A record passes a check of its fields alike if the values in it do. -/
theorem checkFields_spanless {record : Record Value} (fields : List (Field TypeExpr))
    (hvalues : ∀ key value, record.get? key = some value → ∀ type place,
      value.check classes.spanless type.spanless place = value.check classes type place)
    (place : Place) (className : Option String) :
    checkFields classes.spanless record (fields.map .spanless) place className =
      checkFields classes record fields place className := by
  induction fields with
  | nil => rw [List.map_nil, checkFields, checkFields]
  | cons field rest ih =>
      rw [List.map_cons, checkFields, checkFields, ih]
      simp only [Field.name_spanless, Field.isRequired_spanless]
      cases hlookup : Record.lookup field.name record.entries with
      | none => rfl
      | some value =>
          dsimp only
          rw [← hvalues field.name value hlookup]
          rfl

/-- The check of elements does not look at spans if the check of each element
does not. The place of an element is counted, not read off the text. -/
theorem checkItems_spanless {items : List Value}
    (hitems : ∀ item ∈ items, ∀ type place,
      item.check classes.spanless type.spanless place = item.check classes type place)
    (element : TypeExpr) (place : Place) (start : Nat) :
    checkItems classes.spanless items element.spanless place start =
      checkItems classes items element place start := by
  induction items generalizing start with
  | nil => rw [checkItems, checkItems]
  | cons item rest ih =>
      obtain ⟨hitem, hrest⟩ := List.forall_mem_cons.1 hitems
      rw [checkItems, checkItems, hitem, ih hrest]

theorem checkTuple_spanless {items : List Value}
    (hitems : ∀ item ∈ items, ∀ type place,
      item.check classes.spanless type.spanless place = item.check classes type place)
    (elements : List TypeExpr) (place : Place) (start : Nat) :
    checkTuple classes.spanless items (elements.map .spanless) place start =
      checkTuple classes items elements place start := by
  induction items generalizing elements start with
  | nil => rw [checkTuple, checkTuple] <;> simp
  | cons item rest ih =>
      obtain ⟨hitem, hrest⟩ := List.forall_mem_cons.1 hitems
      cases elements with
      | nil => rw [List.map_nil, checkTuple, checkTuple] <;> simp
      | cons element elements =>
          rw [List.map_cons, checkTuple, checkTuple, hitem, ih hrest]

/-- The check of a value looks at no span. -/
theorem check_spanless (classes : ClassTable) (value : Value) (type : TypeExpr) (place : Place) :
    value.check classes.spanless type.spanless place = value.check classes type place := by
  -- the values get smaller: the types do not, as a class name stands for types of its own
  have hrecord (record : Record Value) (hvalue : value = .object record) :
      ∀ key item, record.get? key = some item → ∀ type place,
        item.check classes.spanless type.spanless place = item.check classes type place :=
    fun _ item _ type place => check_spanless classes item type place
  have hitems (items : List Value) (hvalue : value = .array items) :
      ∀ item ∈ items, ∀ type place,
        item.check classes.spanless type.spanless place = item.check classes type place :=
    fun item _ type place => check_spanless classes item type place
  cases type with
  | reference name =>
      rw [TypeExpr.spanless, check.eq_def, check.eq_def classes]
      dsimp only
      cases BuiltInType.ofName? name with
      | some kind => rfl
      | none =>
          dsimp only
          rw [classes.get?_spanless]
          cases classes.get? name with
          | none => rfl
          | some cls =>
              cases value with
              | object record =>
                  have hfields := checkFields_spanless cls.fields.values (hrecord record rfl)
                  dsimp only [Option.map_some]
                  rw [Class.spanless, Record.values_mapValues, checkNames_spanless]
                  exact congrArg (· >>= _) (hfields place (some name))
              | _ => rfl
  | object fields =>
      rw [TypeExpr.spanless_object]
      cases value with
      | object record =>
          rw [check, check, checkFields_spanless fields (hrecord record rfl),
            checkNames_spanless]
      | _ => rw [check, check] <;> simp
  | array => cases value <;> rw [TypeExpr.spanless, check, check] <;> simp
  | arrayOf element =>
      rw [TypeExpr.spanless]
      cases value with
      | array items => rw [check, check, checkItems_spanless (hitems items rfl)]
      | _ => rw [check, check] <;> simp
  | tuple elements =>
      rw [TypeExpr.spanless_tuple]
      cases value with
      | array items =>
          rw [check, check, checkTuple_spanless (hitems items rfl), List.length_map]
      | _ => rw [check, check] <;> simp
  | literal body =>
      cases value <;> rw [TypeExpr.spanless, check, check] <;> simp
termination_by sizeOf value
decreasing_by
  all_goals subst hvalue
  · have := Record.sizeOf_lookup_lt ‹record.get? _ = some item›
    obtain ⟨entries⟩ := record
    simp_all
    omega
  · have := List.sizeOf_lt_of_mem ‹item ∈ items›
    simp only [array.sizeOf_spec]
    omega

end Value

namespace Evaluation

variable {α β : Type}

def faults (evaluation : Evaluation α) : Option (Except EvalFault α) :=
  evaluation.run.map (·.mapError EvalError.fault)

/-- Forgetting the places of errors can be done step by step: what follows a
step sees its value, never where an error arose. -/
theorem faults_bind (evaluation : Evaluation α) (next : α → Evaluation β) :
    (evaluation >>= next).faults =
      match evaluation.faults with
      | none => none
      | some (.error fault) => some (.error fault)
      | some (.ok value) => (next value).faults := by
  rw [faults, faults, ExceptT.run_bind]
  rcases evaluation.run with _ | (error | value) <;> rfl

/-- Naming a place changes nothing about the fault. This is why spans can differ
in two evaluations that otherwise agree. -/
theorem faults_within (evaluation : Evaluation α) (span : Span) :
    (evaluation.within span).faults = evaluation.faults := by
  change (evaluation.run.map _).map _ = evaluation.run.map _
  rcases evaluation.run with _ | (error | value) <;> rfl

/-- Two evaluations that come to the same value, or to errors with the same
fault, or both to nothing. -/
def Agrees (first second : Evaluation α) : Prop := first.faults = second.faults

theorem Agrees.refl (evaluation : Evaluation α) : evaluation.Agrees evaluation := rfl

theorem fail_bind (fault : EvalFault) (next : α → Evaluation β) :
    (fail fault >>= next) = fail fault := rfl

/-- Two evaluations that agree can be followed by two that agree on every value.
The lemmas on containers and classes below are chains of this step. -/
theorem Agrees.bind {first second : Evaluation α} {next other : α → Evaluation β}
    (hfirst : first.Agrees second) (hnext : ∀ value, (next value).Agrees (other value)) :
    (first >>= next).Agrees (second >>= other) := by
  rw [Agrees, faults_bind, faults_bind, hfirst]
  rcases second.faults with _ | (fault | value)
  · rfl
  · rfl
  · exact hnext value

theorem Agrees.map {first second : Evaluation α} (f : α → β) (h : first.Agrees second) :
    (f <$> first).Agrees (f <$> second) := by
  simp only [← bind_pure_comp]
  exact h.bind fun _ => .refl _

/-- An agreement survives any two places, on either side: the places are what it
leaves out. -/
theorem Agrees.within {first second : Evaluation α} (h : first.Agrees second)
    (span other : Span) : (first.within span).Agrees (second.within other) := by
  rw [Agrees, faults_within, faults_within, h]

end Evaluation

open Evaluation

/-- One way to evaluate agrees on every expression with another one on the
expression without its spans. -/
def Evaluator.Agrees (eval other : Evaluator) : Prop :=
  ∀ expr ambient, (eval expr ambient).Agrees (other expr.spanless ambient)

section

variable {eval other : Evaluator}

theorem Container.add_agrees (container : Value) (member : Member Expr) (value : Value) :
    (add container member value).Agrees (add container member.spanless value) := by
  cases container <;> cases member <;> cases value <;> rfl

variable (heval : eval.Agrees other)

include heval

/-- Members are added alike one after the other. Each of them sees the container
that is built so far, which is the same value on both sides. -/
theorem Container.addMembers_agrees (ambient : Ambient) (container : Value)
    (members : List (Member Expr)) :
    (addMembers eval ambient container members).Agrees
      (addMembers other ambient container (members.map .spanless)) := by
  induction members generalizing container with
  | nil => exact .refl _
  | cons member rest ih =>
      have hvalue := heval member.value (ambient.inside container)
      rw [← Member.value_spanless] at hvalue
      exact hvalue.bind fun value => (add_agrees container member value).bind fun next => ih next

/-- A container agrees with the one that has no spans if the evaluation of its
parts does. Its kind does not depend on spans. -/
theorem Container.evaluate_agrees (ambient : Ambient) (body : Container Expr) :
    (body.evaluate eval ambient).Agrees (body.spanless.evaluate other ambient) := by
  obtain ⟨kind, members⟩ := body
  cases kind with
  | array => exact addMembers_agrees heval ambient _ members
  | object => exact addMembers_agrees heval ambient _ members
  | unknown =>
      rcases members with _ | ⟨_ | _ | argument, rest⟩
      · exact .refl _
      · exact addMembers_agrees heval ambient _ (_ :: rest)
      · exact addMembers_agrees heval ambient _ (_ :: rest)
      · exact (heval argument ambient).bind fun first =>
          (add_agrees _ (.spread argument) first).bind fun next =>
            addMembers_agrees heval ambient next rest

theorem Class.argumentValues_agrees (ambient : Ambient) (arguments : List (Argument Expr)) :
    (argumentValues eval ambient arguments).Agrees
      (argumentValues other ambient (arguments.map .spanless)) := by
  induction arguments with
  | nil => exact .refl _
  | cons argument rest ih =>
      obtain ⟨isSpread, argument⟩ := argument
      have hrest (values : List Value) := ih.bind fun more => Agrees.refl (pure (values ++ more))
      refine (heval argument ambient).bind fun value => ?_
      cases isSpread with
      | false => exact (Agrees.refl _).bind hrest
      | true =>
          cases value with
          | array items => exact (Agrees.refl _).bind hrest
          | _ => exact ((Agrees.refl _).within _ _).bind hrest

theorem Class.constructed_agrees (ambient : Ambient) (cls : Class) (field : Field TypeExpr) :
    (constructed eval ambient cls field).Agrees
      (constructed other ambient cls.spanless field.spanless) := by
  obtain ⟨name, type, optional, default, span⟩ := field
  cases default with
  | none => exact .refl _
  | some default => exact (heval default ambient).bind fun value => .refl _

theorem Class.completed_agrees (ambient : Ambient) (cls : Class) (provided : Record Value)
    (field : Field TypeExpr) :
    (completed eval ambient cls provided field).Agrees
      (completed other ambient cls.spanless provided field.spanless) := by
  obtain ⟨name, type, optional, default, span⟩ := field
  unfold completed Field.spanless
  dsimp only
  cases provided.get? name with
  | some value => cases default <;> exact .refl _
  | none =>
      cases default with
      | none => exact .refl _
      | some default => exact (heval default ambient).map some

omit heval in
/-- Fields are filled alike if each of them is chosen alike. The checks on the
way are those of the types without spans. -/
theorem Class.build_agrees (cls : Class) (classes : ClassTable)
    {choose chooseOther : Field TypeExpr → Evaluation (Option Value)}
    (hchoose : ∀ field, (choose field).Agrees (chooseOther field.spanless)) (built : Record Value)
    (fields : List (Field TypeExpr)) :
    (cls.build classes choose built fields).Agrees
      (cls.spanless.build classes.spanless chooseOther built (fields.map .spanless)) := by
  induction fields generalizing built with
  | nil => exact .refl _
  | cons field rest ih =>
      rw [List.map_cons, build, build]
      refine (hchoose field).bind fun chosen => ?_
      cases chosen with
      | none => exact ih built
      | some value =>
          dsimp only
          rw [Field.type_spanless, Value.check_spanless]
          exact (Agrees.refl _).bind fun _ => ih _

/-- A call of a class agrees with the call that has no spans: arguments, their
binding and the fields one after the other. -/
theorem Class.construct_agrees (ambient : Ambient) (classes : ClassTable) (cls : Class)
    (arguments : List (Argument Expr)) :
    (construct eval ambient classes cls arguments).Agrees
      (construct other ambient classes.spanless cls.spanless (arguments.map .spanless)) := by
  refine (argumentValues_agrees heval ambient arguments).bind fun values => ?_
  dsimp only
  rw [values_fields_spanless]
  exact (build_agrees cls classes (constructed_agrees heval _ cls) .empty _).bind
    fun record => .refl _

/-- An instance with a body agrees with the one that has no spans, undeclared
names and missing fields included. -/
theorem Class.instantiate_agrees (ambient : Ambient) (classes : ClassTable) (cls : Class)
    (body : Container Expr) :
    (instantiate eval ambient classes cls body).Agrees
      (instantiate other ambient classes.spanless cls.spanless body.spanless) := by
  refine (Container.evaluate_agrees heval ambient body).bind fun value => ?_
  cases value with
  | object provided =>
      dsimp only
      simp only [values_fields_spanless, contains_fields_spanless]
      refine (build_agrees cls classes (completed_agrees heval ambient cls provided) .empty _).bind
        fun record => ?_
      exact .refl _
  | _ => exact .refl _

end

namespace Scope

def spanless (scope : Scope) : Scope := { scope with classes := scope.classes.spanless }

/-- A class is found with spans where it is found without them. -/
theorem findClass_cases (scope : Scope) (name : String) :
    (∃ cls, scope.findClass name = pure cls ∧ scope.spanless.findClass name = pure cls.spanless) ∨
      (scope.findClass name = .fail (.unknownClass name) ∧
        scope.spanless.findClass name = .fail (.unknownClass name)) := by
  have hclass : scope.spanless.classes.get? name = (scope.classes.get? name).map .spanless :=
    scope.classes.get?_spanless name
  unfold findClass
  rw [hclass]
  cases scope.classes.get? name with
  | none => exact .inr ⟨rfl, rfl⟩
  | some cls => exact .inl ⟨cls, rfl, rfl⟩

theorem root?_spanless (scope : Scope) (ambient : Ambient) (name : String) :
    scope.spanless.root? ambient name = scope.root? ambient name := rfl

theorem root_spanless (scope : Scope) (ambient : Ambient) (name : String) :
    scope.spanless.root ambient name = scope.root ambient name := by
  rw [root, root, root?_spanless]

theorem named_spanless (scope : Scope) (ambient : Ambient) (name : String) :
    scope.spanless.named ambient name = scope.named ambient name := by
  rw [named, named, root_spanless]

/-- A dotted path means the same in both scopes. It is looked up by names only,
in the surroundings and then in the bindings. -/
theorem reference_spanless (scope : Scope) (ambient : Ambient) (segments : List String) :
    scope.spanless.reference ambient segments = scope.reference ambient segments := by
  cases segments with
  | nil => rfl
  | cons name keys => rw [reference, reference, root_spanless]

/-- A literal has the same value in both scopes, as the placeholders of a string
are looked up by names as well. -/
theorem literal_spanless (scope : Scope) (ambient : Ambient) (value : Literal) :
    scope.spanless.literal ambient value = scope.literal ambient value := by
  have htext : scope.spanless.textAt? ambient = scope.textAt? ambient := by
    funext path
    simp only [textAt?, root?_spanless]
  cases value with
  | string body => rw [literal, literal, htext]
  | _ => rfl

/-- The step of evaluation agrees if the evaluation of parts does. The induction
on the depth that uses it is made once, for both sides. -/
theorem evalParts_agrees (scope : Scope) {eval other : Evaluator} (heval : eval.Agrees other)
    (ambient : Ambient) (expr : Expr) :
    (scope.evalParts eval ambient expr).Agrees
      (scope.spanless.evalParts other ambient expr.spanless) := by
  cases expr with
  | ident span name =>
      rw [Expr.spanless, evalParts, evalParts, named_spanless]
      exact .refl _
  | path span segments =>
      rw [Expr.spanless, evalParts, evalParts, reference_spanless]
      exact .refl _
  | literal span value =>
      rw [Expr.spanless, evalParts, evalParts, literal_spanless]
      exact .refl _
  | container span body =>
      rw [Expr.spanless_container]
      exact Container.evaluate_agrees heval ambient body
  | call span className arguments =>
      rw [Expr.spanless_call, evalParts, evalParts]
      rcases scope.findClass_cases className with ⟨cls, hfound, hother⟩ | ⟨hnone, hother⟩
      · rw [hfound, hother, pure_bind, pure_bind, Class.isConstructor_spanless]
        split
        · exact Class.construct_agrees heval ambient scope.classes cls arguments
        · exact .refl _
      · rw [hnone, hother, fail_bind, fail_bind]
        exact .refl _
  | classInstance span className body =>
      rw [Expr.spanless_classInstance, evalParts, evalParts]
      rcases scope.findClass_cases className with ⟨cls, hfound, hother⟩ | ⟨hnone, hother⟩
      · rw [hfound, hother, pure_bind, pure_bind, Class.isConstructor_spanless]
        split
        · exact .refl _
        · exact Class.instantiate_agrees heval ambient scope.classes cls body
      · rw [hnone, hother, fail_bind, fail_bind]
        exact .refl _
  | conditional span left right =>
      refine (heval left ambient).bind fun value => ?_
      split
      · exact heval right ambient
      · exact .refl _

/-- An expression comes to the same value without spans, or to an error with the
same fault. -/
theorem eval_agrees (scope : Scope) (depth : Nat) :
    (scope.eval depth).Agrees (scope.spanless.eval depth) := by
  induction depth with
  | zero => exact fun _ _ => .refl _
  | succ depth ih => exact fun expr ambient => (scope.evalParts_agrees ih ambient expr).within _ _

end Scope

end ConfigNotation
