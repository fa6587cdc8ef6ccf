import ConfigNotation.Eval.Expr
import ConfigNotation.Proofs.Syntax.Parts

/-!
An expression is evaluated through its parts. So two ways to evaluate that come to the same for
the parts, and for the defaults of the classes, come to the same for the whole.
-/

namespace ConfigNotation

/-- Two ways to evaluate come to the same for expressions of some sort, in
surroundings that are close to each other. -/
def Evaluator.AgreeOn (sort : Expr → Prop) (close : Ambient → Ambient → Prop)
    (eval other : Evaluator) : Prop :=
  ∀ expr first second, sort expr → close first second → eval expr first = other expr second

/-- Surroundings that are close to each other stay so inside of a container and
of a constructor. -/
structure Ambient.StayClose (close : Ambient → Ambient → Prop) : Prop where
  inside : ∀ {first second}, close first second → ∀ container,
    close (first.inside container) (second.inside container)
  bound : ∀ {first second}, close first second → ∀ parameters values,
    close { first with parameters := Class.bindParameters first.parameters parameters values }
      { second with parameters := Class.bindParameters second.parameters parameters values }

def Class.DefaultsAre (sort : Expr → Prop) (cls : Class) : Prop :=
  ∀ field ∈ cls.fields.values, ∀ default ∈ field.default, sort default

/-- A first spread is evaluated outside of the container whose kind it gives. -/
theorem Container.evaluate_deferred {eval : Evaluator} (ambient : Ambient) (first : Expr)
    (rest : List (Member Expr)) :
    Container.evaluate eval ambient ⟨.unknown, .spread first :: rest⟩ =
      eval first ambient >>= fun value => add (emptyFor value) (.spread first) value >>=
        fun container => addMembers eval ambient container rest :=
  rfl

section

variable {sort : Expr → Prop} {close : Ambient → Ambient → Prop} {eval other : Evaluator}
  {first second : Ambient} (heval : Evaluator.AgreeOn sort close eval other)
  (hclose : Ambient.StayClose close) (h : close first second)

include heval h

namespace Container

include hclose

theorem addMembers_congr {members : List (Member Expr)}
    (hmembers : ∀ member ∈ members, sort member.value) (container : Value) :
    addMembers eval first container members = addMembers other second container members := by
  induction members generalizing container with
  | nil => rfl
  | cons member rest ih =>
      obtain ⟨hmember, hrest⟩ := List.forall_mem_cons.1 hmembers
      rw [addMembers, addMembers, heval _ _ _ hmember (hclose.inside h container)]
      exact bind_congr fun value => bind_congr fun next => ih hrest next

theorem evaluate_congr {body : Container Expr}
    (hbody : ∀ member ∈ body.members, sort member.value) :
    body.evaluate eval first = body.evaluate other second := by
  have hadd {members : List (Member Expr)} (hmembers : ∀ member ∈ members, sort member.value)
      (container : Value) :
      addMembers eval first container members = addMembers other second container members :=
    addMembers_congr heval hclose h hmembers container
  obtain ⟨kind, members⟩ := body
  rcases kind with _ | _ | _
  · exact hadd hbody _
  · exact hadd hbody _
  · rcases members with _ | ⟨_ | _ | argument, rest⟩
    · rfl
    · exact hadd hbody _
    · exact hadd hbody _
    · obtain ⟨hargument, hrest⟩ := List.forall_mem_cons.1 hbody
      rw [evaluate_deferred, evaluate_deferred, heval argument _ _ hargument h]
      exact bind_congr fun value => bind_congr fun next => hadd hrest next

end Container

namespace Class

theorem argumentValues_congr {arguments : List (Argument Expr)}
    (harguments : ∀ argument ∈ arguments, sort argument.value) :
    argumentValues eval first arguments = argumentValues other second arguments := by
  induction arguments with
  | nil => rfl
  | cons argument rest ih =>
      obtain ⟨hargument, hrest⟩ := List.forall_mem_cons.1 harguments
      rw [argumentValues, argumentValues, heval _ _ _ hargument h, ih hrest]

theorem constructed_congr (cls : Class) {field : Field TypeExpr}
    (hfield : ∀ default ∈ field.default, sort default) :
    constructed eval first cls field = constructed other second cls field := by
  rw [constructed, constructed]
  split
  · next default hdefault => rw [heval default _ _ (hfield default hdefault) h]
  · rfl

theorem completed_congr (cls : Class) (provided : Record Value) {field : Field TypeExpr}
    (hfield : ∀ default ∈ field.default, sort default) :
    completed eval first cls provided field = completed other second cls provided field := by
  rw [completed, completed]
  split
  · rfl
  · next default _ hdefault => rw [heval default _ _ (hfield default hdefault) h]
  · rfl

omit heval h in
theorem build_congr (cls : Class) (classes : ClassTable)
    {choose other : Field TypeExpr → Evaluation (Option Value)} {fields : List (Field TypeExpr)}
    (hfields : ∀ field ∈ fields, choose field = other field) (built : Record Value) :
    cls.build classes choose built fields = cls.build classes other built fields := by
  induction fields generalizing built with
  | nil => rfl
  | cons field rest ih =>
      obtain ⟨hfield, hrest⟩ := List.forall_mem_cons.1 hfields
      rw [build, build, hfield]
      refine bind_congr fun chosen => ?_
      cases chosen with
      | none => exact ih hrest built
      | some value => exact bind_congr fun _ => ih hrest _

include hclose

theorem construct_congr (classes : ClassTable) {cls : Class} (hcls : cls.DefaultsAre sort)
    {arguments : List (Argument Expr)}
    (harguments : ∀ argument ∈ arguments, sort argument.value) :
    cls.construct eval first classes arguments = cls.construct other second classes arguments := by
  rw [construct, construct, argumentValues_congr heval h harguments]
  refine bind_congr fun values => ?_
  have hfields := build_congr cls classes (fun field hfield =>
    constructed_congr heval (hclose.bound h cls.parameters values) cls (hcls field hfield))
  dsimp only at hfields ⊢
  rw [hfields]

theorem instantiate_congr (classes : ClassTable) {cls : Class} (hcls : cls.DefaultsAre sort)
    {body : Container Expr} (hbody : ∀ member ∈ body.members, sort member.value) :
    cls.instantiate eval first classes body = cls.instantiate other second classes body := by
  rw [instantiate, instantiate, Container.evaluate_congr heval hclose h hbody]
  refine bind_congr fun value => ?_
  cases value with
  | object provided =>
      dsimp only
      rw [build_congr cls classes fun field hfield =>
        completed_congr heval h cls provided (hcls field hfield)]
  | _ => rfl

end Class

namespace Scope

variable {scope : Scope}

omit heval h in
theorem findClass_bind_congr {α : Type} {className : String} {next other : Class → Evaluation α}
    (h : ∀ cls, scope.classes.get? className = some cls → next cls = other cls) :
    scope.findClass className >>= next = scope.findClass className >>= other := by
  rw [findClass]
  split
  · next cls hcls => rw [pure_bind, pure_bind, h cls hcls]
  · rfl

include hclose

/-- An expression comes to the same if its parts do. Names, paths and literals
have no parts: they come to the same where they look for the same. -/
theorem evalParts_congr
    (hscope : ∀ name cls, scope.classes.get? name = some cls → cls.DefaultsAre sort)
    {expr : Expr} (hparts : ∀ part ∈ expr.parts, sort part)
    (hname : ∀ span name, expr = .ident span name → scope.named first name = scope.named second name)
    (hpath : ∀ span segments, expr = .path span segments →
      scope.reference first segments = scope.reference second segments)
    (hliteral : ∀ span value, expr = .literal span value →
      scope.literal first value = scope.literal second value) :
    scope.evalParts eval first expr = scope.evalParts other second expr := by
  cases expr with
  | ident span name => exact hname span name rfl
  | path span segments => exact hpath span segments rfl
  | literal span value => exact hliteral span value rfl
  | container span body =>
      exact Container.evaluate_congr heval hclose h (List.forall_mem_map.1 hparts)
  | call span className arguments =>
      rw [evalParts, evalParts]
      refine findClass_bind_congr fun cls hcls => ?_
      rw [Class.construct_congr heval hclose h scope.classes (hscope className cls hcls)
        (List.forall_mem_map.1 hparts)]
  | classInstance span className body =>
      rw [evalParts, evalParts]
      refine findClass_bind_congr fun cls hcls => ?_
      rw [Class.instantiate_congr heval hclose h scope.classes (hscope className cls hcls)
        (List.forall_mem_map.1 hparts)]
  | conditional span left right =>
      rw [evalParts, evalParts, heval left _ _ (hparts left List.mem_cons_self) h]
      refine bind_congr fun value => ?_
      rw [heval right _ _ (hparts right (List.mem_cons_of_mem _ List.mem_cons_self)) h]

end Scope

end

end ConfigNotation
