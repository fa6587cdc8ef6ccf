import Mathlib.Data.Set.Finite.List
import ConfigNotation.Eval.Expr
import ConfigNotation.Proofs.Syntax.Parts

/-!
Expressions that have an outcome if depth enough is allowed. An expression needs depth
for its parts, and for the defaults of the fields of a class that it makes an instance
of. So all expressions have an outcome if no class needs itself for its defaults.
-/

namespace ConfigNotation

open Relation

/-- An outcome that is there for every sufficient depth. -/
def Halting {α : Type} (family : Nat → Evaluation α) : Prop :=
  ∃ outcome least, ∀ depth, least ≤ depth → (family depth).run = some outcome

namespace Halting

variable {α β : Type}

/-- An evaluation that has an outcome by itself has one at every depth. -/
theorem const {evaluation : Evaluation α} (h : evaluation.run.isSome) :
    Halting fun _ => evaluation := by
  obtain ⟨outcome, hrun⟩ := Option.isSome_iff_exists.1 h
  exact ⟨outcome, 0, fun _ _ => hrun⟩

/-- Two steps that have outcomes from some depth on have one together: from the
greater of both depths on, where the first one does not change any more. -/
theorem bind {family : Nat → Evaluation α} {next : Nat → α → Evaluation β}
    (hfirst : Halting family) (hnext : ∀ value, Halting fun depth => next depth value) :
    Halting fun depth => family depth >>= next depth := by
  obtain ⟨error | value, least, hrun⟩ := hfirst
  · refine ⟨.error error, least, fun depth hdepth => ?_⟩
    rw [ExceptT.run_bind, hrun depth hdepth]
    rfl
  · obtain ⟨outcome, more, hmore⟩ := hnext value
    refine ⟨outcome, max least more, fun depth hdepth => ?_⟩
    rw [ExceptT.run_bind, hrun depth (by omega)]
    exact hmore depth (by omega)

theorem map {family : Nat → Evaluation α} (f : α → β) (h : Halting family) :
    Halting fun depth => f <$> family depth := by
  simp only [← bind_pure_comp]
  exact h.bind fun _ => const rfl

theorem within {family : Nat → Evaluation α} (span : Span) (h : Halting family) :
    Halting fun depth => (family depth).within span := by
  obtain ⟨outcome, least, hrun⟩ := h
  refine ⟨outcome.mapError (·.within span), least, fun depth hdepth => ?_⟩
  exact Option.map_eq_some_iff.2 ⟨outcome, hrun depth hdepth, rfl⟩

/-- What takes depth one more than its parts do. -/
theorem succ {family : Nat → Evaluation α} (h : Halting fun depth => family (depth + 1)) :
    Halting family := by
  obtain ⟨outcome, least, hrun⟩ := h
  refine ⟨outcome, least + 1, fun depth hdepth => ?_⟩
  obtain ⟨depth, rfl⟩ := Nat.exists_eq_add_one.2 (by omega : 0 < depth)
  exact hrun depth (by omega)

end Halting

/-- An expression has an outcome wherever it stands. -/
def HaltsAt (eval : Nat → Evaluator) (expr : Expr) : Prop :=
  ∀ ambient, Halting fun depth => eval depth expr ambient

def DefaultsHalt (eval : Nat → Evaluator) (cls : Class) : Prop :=
  ∀ field ∈ cls.fields.values, ∀ default ∈ field.default, HaltsAt eval default

section

variable {eval : Nat → Evaluator}

/-- Adding a value to a container needs no depth, whether it succeeds or
fails. -/
theorem Container.add_run_isSome (container : Value) (member : Member Expr) (value : Value) :
    (add container member value).run.isSome := by
  unfold add
  split
  · unfold addToArray
    split <;> rfl
  · unfold addToObject
    split <;> rfl
  · rfl

/-- Members have outcomes from some depth on if each of them has, for the
container that is built so far at that place. -/
theorem Container.addMembers_halting (ambient : Ambient) {members : List (Member Expr)}
    (h : ∀ member ∈ members, HaltsAt eval member.value) (container : Value) :
    Halting fun depth => addMembers (eval depth) ambient container members := by
  induction members generalizing container with
  | nil => exact .const rfl
  | cons member rest ih =>
      obtain ⟨hmember, hrest⟩ := List.forall_mem_cons.1 h
      refine (hmember _).bind fun value => ?_
      exact (Halting.const (add_run_isSome container member value)).bind fun next => ih hrest next

theorem Container.evaluate_halting (ambient : Ambient) {body : Container Expr}
    (h : ∀ member ∈ body.members, HaltsAt eval member.value) :
    Halting fun depth => body.evaluate (eval depth) ambient := by
  obtain ⟨kind, members⟩ := body
  rcases kind with _ | _ | _
  · exact addMembers_halting ambient h _
  · exact addMembers_halting ambient h _
  · rcases members with _ | ⟨_ | _ | argument, rest⟩
    · exact addMembers_halting ambient h _
    · exact addMembers_halting ambient h _
    · exact addMembers_halting ambient h _
    · obtain ⟨hargument, hrest⟩ := List.forall_mem_cons.1 h
      refine (hargument ambient).bind fun first => ?_
      exact (Halting.const (add_run_isSome _ _ _)).bind fun next =>
        addMembers_halting ambient hrest next

namespace Class

theorem argumentValues_halting (ambient : Ambient) {arguments : List (Argument Expr)}
    (h : ∀ argument ∈ arguments, HaltsAt eval argument.value) :
    Halting fun depth => argumentValues (eval depth) ambient arguments := by
  induction arguments with
  | nil => exact .const rfl
  | cons argument rest ih =>
      obtain ⟨hargument, hrest⟩ := List.forall_mem_cons.1 h
      have hvalues (values : List Value) :
          Halting fun depth => do
            return values ++ (← argumentValues (eval depth) ambient rest) :=
        (ih hrest).bind fun _ => .const rfl
      refine (hargument ambient).bind fun value => ?_
      dsimp only
      split <;> exact (Halting.const rfl).bind hvalues

/-- The fields of an instance are filled from some depth on if each choice of a
value has an outcome. -/
theorem build_halting (cls : Class) (classes : ClassTable)
    {choose : Nat → Field TypeExpr → Evaluation (Option Value)} {fields : List (Field TypeExpr)}
    (h : ∀ field ∈ fields, Halting fun depth => choose depth field) (built : Record Value) :
    Halting fun depth => cls.build classes (choose depth) built fields := by
  induction fields generalizing built with
  | nil => exact .const rfl
  | cons field rest ih =>
      obtain ⟨hfield, hrest⟩ := List.forall_mem_cons.1 h
      refine hfield.bind fun chosen => ?_
      cases chosen with
      | some value => exact (Halting.const rfl).bind fun _ => ih hrest _
      | none => exact ih hrest _

theorem constructed_halting (ambient : Ambient) (cls : Class) {field : Field TypeExpr}
    (h : ∀ default ∈ field.default, HaltsAt eval default) :
    Halting fun depth => constructed (eval depth) ambient cls field := by
  unfold constructed
  split
  · next default hdefault => exact (h default hdefault ambient).bind fun _ => .const rfl
  · split <;> exact .const rfl

theorem completed_halting (ambient : Ambient) (cls : Class) (provided : Record Value)
    {field : Field TypeExpr} (h : ∀ default ∈ field.default, HaltsAt eval default) :
    Halting fun depth => completed (eval depth) ambient cls provided field := by
  unfold completed
  split
  · exact .const rfl
  · next default _ hdefault => exact (h default hdefault ambient).map some
  · split <;> exact .const rfl

/-- A call has an outcome from some depth on, given that the defaults of its class
and its arguments have. -/
theorem construct_halting (ambient : Ambient) (classes : ClassTable) {cls : Class}
    {arguments : List (Argument Expr)} (hcls : DefaultsHalt eval cls)
    (h : ∀ argument ∈ arguments, HaltsAt eval argument.value) :
    Halting fun depth => construct (eval depth) ambient classes cls arguments := by
  refine (argumentValues_halting ambient h).bind fun values => ?_
  refine Halting.bind ?_ fun _ => .const rfl
  exact build_halting cls classes (fun field hfield =>
    constructed_halting _ cls (hcls field hfield)) _

/-- An instance with a body has an outcome from some depth on, given that the
members and the defaults have. -/
theorem instantiate_halting (ambient : Ambient) (classes : ClassTable) {cls : Class}
    {body : Container Expr} (hcls : DefaultsHalt eval cls)
    (h : ∀ member ∈ body.members, HaltsAt eval member.value) :
    Halting fun depth => instantiate (eval depth) ambient classes cls body := by
  refine (Container.evaluate_halting ambient h).bind fun value => ?_
  cases value with
  | object provided =>
      refine Halting.bind ?_ fun _ => ?_
      · exact build_halting cls classes (fun field hfield =>
          completed_halting ambient cls provided (hcls field hfield)) _
      · dsimp only
        split <;> exact .const rfl
  | _ => exact .const rfl

end Class

namespace Scope

variable (scope : Scope) (ambient : Ambient)

theorem root_run_isSome (name : String) : (scope.root ambient name).run.isSome := by
  unfold root
  split <;> rfl

theorem named_run_isSome (name : String) : (scope.named ambient name).run.isSome := by
  unfold named
  split
  · rfl
  · exact scope.root_run_isSome ambient name

theorem literal_run_isSome (value : Literal) : (scope.literal ambient value).run.isSome := by
  unfold literal
  split
  any_goals rfl
  split <;> rfl

/-- Looking up a path needs no depth: it never evaluates anything. -/
theorem reference_run_isSome (segments : List String) :
    (scope.reference ambient segments).run.isSome := by
  cases segments with
  | nil => rfl
  | cons name keys =>
      rw [reference, root]
      split <;> rfl

/-- An expression has an outcome if its parts have, and the defaults of the class
that it makes an instance of. -/
theorem evalParts_halting {expr : Expr} (hparts : ∀ part ∈ expr.parts, HaltsAt eval part)
    (hclass : ∀ name ∈ expr.className?, ∀ cls, scope.classes.get? name = some cls →
      DefaultsHalt eval cls) :
    Halting fun depth => scope.evalParts (eval depth) ambient expr := by
  have hfound (name : String) {next : Nat → Class → Evaluation Value}
      (hnext : ∀ cls, scope.classes.get? name = some cls → Halting fun depth => next depth cls) :
      Halting fun depth => scope.findClass name >>= next depth := by
    unfold findClass
    cases hcls : scope.classes.get? name with
    | none => exact .const rfl
    | some cls => exact hnext cls hcls
  cases expr with
  | ident span name => exact .const (scope.named_run_isSome ambient name)
  | path span segments => exact .const (scope.reference_run_isSome ambient segments)
  | literal span value => exact .const (scope.literal_run_isSome ambient value)
  | container span body =>
      exact Container.evaluate_halting ambient (List.forall_mem_map.1 hparts)
  | call span className arguments =>
      refine hfound className fun cls hcls => ?_
      split
      · exact Class.construct_halting ambient _ (hclass _ rfl cls hcls)
          (List.forall_mem_map.1 hparts)
      · exact .const rfl
  | classInstance span className body =>
      refine hfound className fun cls hcls => ?_
      split
      · exact .const rfl
      · exact Class.instantiate_halting ambient _ (hclass _ rfl cls hcls)
          (List.forall_mem_map.1 hparts)
  | conditional span left right =>
      obtain ⟨hleft, hrest⟩ := List.forall_mem_cons.1 hparts
      have hright := List.forall_mem_singleton.1 hrest
      refine (hleft ambient).bind fun value => ?_
      split
      · exact hright ambient
      · exact .const rfl

end Scope

end

/-- A class needs another one for its defaults: a default of one of its
fields, with those that it inherits, has a call or an instance of the other
one in it. -/
def ClassTable.Needs (classes : ClassTable) (user used : String) : Prop :=
  ∃ cls, classes.get? user = some cls ∧
    ∃ field ∈ cls.fields.values, ∃ default ∈ field.default, default.Involves used

/-- No class needs itself, not even through others. -/
def ClassTable.Acyclic (classes : ClassTable) : Prop :=
  ∀ name, ¬TransGen classes.Needs name name

namespace ClassTable

variable {classes : ClassTable}

theorem Needs.mem_keys {user used : String} (h : classes.Needs user used) :
    user ∈ classes.keys := by
  obtain ⟨cls, hcls, _⟩ := h
  by_contra hnot
  rw [Record.get?_eq_none_iff.2 hnot] at hcls
  cases hcls

/-- There are finitely many classes, so that going from a class to those that it
needs comes to an end. -/
theorem Acyclic.acc (h : classes.Acyclic) (name : String) :
    Acc (fun used user => classes.Needs user used) name := by
  let Known : Type := { name // name ∈ classes.keys }
  let needed (used user : Known) : Prop := TransGen classes.Needs user.1 used.1
  have hirrefl : Std.Irrefl needed := ⟨fun known hself => h known.1 hself⟩
  have htrans : IsTrans Known needed := ⟨fun _ _ _ hfirst hsecond => hsecond.trans hfirst⟩
  have hfinite : Finite Known := (List.finite_toSet classes.keys).to_subtype
  have hwellFounded : WellFounded needed := Finite.wellFounded_of_trans_of_irrefl needed
  have hknown (known : Known) : Acc (fun used user => classes.Needs user used) known.1 := by
    induction hwellFounded.apply known with
    | intro known _ ih =>
        constructor
        intro used hused
        by_cases hregistered : used ∈ classes.keys
        · exact ih ⟨used, hregistered⟩ (.single hused)
        · exact ⟨used, fun other hother => absurd hother.mem_keys hregistered⟩
  by_cases hregistered : name ∈ classes.keys
  · exact hknown ⟨name, hregistered⟩
  · exact ⟨name, fun other hother => absurd hother.mem_keys hregistered⟩

end ClassTable

namespace Scope

variable {scope : Scope}

/-- An expression has an outcome if the defaults of all classes in it have. -/
theorem haltsAt_of_classes {expr : Expr}
    (h : ∀ name, expr.Involves name → ∀ cls, scope.classes.get? name = some cls →
      DefaultsHalt scope.eval cls) :
    HaltsAt scope.eval expr := by
  induction expr using Expr.parts_induction with
  | step expr ih =>
      intro ambient
      have hparts : ∀ part ∈ expr.parts, HaltsAt scope.eval part :=
        fun part hpart => ih part hpart fun name hname => h name (hname.of_part hpart)
      have hclass : ∀ name ∈ expr.className?, ∀ cls, scope.classes.get? name = some cls →
          DefaultsHalt scope.eval cls :=
        fun name hname => h name ⟨expr, .refl, hname⟩
      exact .succ ((evalParts_halting scope ambient hparts hclass).within expr.span)

/-- The defaults of a class have outcomes if no chain of needs goes on forever
behind it, by induction along these chains. -/
theorem defaultsHalt_of_acc {name : String}
    (h : Acc (fun used user => scope.classes.Needs user used) name) {cls : Class}
    (hcls : scope.classes.get? name = some cls) :
    DefaultsHalt scope.eval cls := by
  induction h generalizing cls with
  | intro name _ ih =>
      intro field hfield default hdefault
      refine haltsAt_of_classes fun used hused other hother => ?_
      exact ih used ⟨cls, hcls, field, hfield, default, hdefault, hused⟩ hother

/-- Every expression has an outcome if no class needs itself. -/
theorem haltsAt (scope : Scope) (h : scope.classes.Acyclic) (expr : Expr) :
    HaltsAt scope.eval expr :=
  haltsAt_of_classes fun name _ _ hcls => defaultsHalt_of_acc (h.acc name) hcls

end Scope

end ConfigNotation
