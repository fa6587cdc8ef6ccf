import ConfigNotation.Eval.Expr
import ConfigNotation.Proofs.Eval.Depth
import ConfigNotation.Proofs.Eval.Fields
import ConfigNotation.Proofs.Syntax.Sound
import ConfigNotation.Proofs.Value.Keyed

/-!
Which values an evaluation comes to. The keys of records come from keys and fields of the
source, and regular expressions from literals; so every value could be written down again
as far as its keys and regular expressions go.
-/

namespace ConfigNotation

def Value.IsRead : Value → Prop
  | regExp value => value.IsLiteral
  | _ => True

/-- Values whose keys are identifiers and whose regular expressions stand in
literals. -/
abbrev Value.Sound (value : Value) : Prop := value.Keyed IsRead

/-- All values that an evaluation comes to are of some sort. -/
def Gives {α : Type} (sort : α → Prop) (evaluation : Evaluation α) : Prop :=
  ∀ value, evaluation.run = some (.ok value) → sort value

namespace Gives

variable {α β : Type} {sort : α → Prop} {other : β → Prop}

theorem pure {value : α} (h : sort value) : Gives sort (Pure.pure value) := by
  rintro _ ⟨⟩
  exact h

/-- A chain of two evaluations gives values of a sort if the second one does on
all values of the first one's sort. -/
theorem bind {first : Evaluation α} {next : α → Evaluation β} (hfirst : Gives sort first)
    (hnext : ∀ value, sort value → Gives other (next value)) :
    Gives other (first >>= next) := by
  intro value hrun
  rcases Evaluation.run_bind_eq_some.1 hrun with ⟨_, _, heq⟩ | ⟨found, hfound, hrest⟩
  · cases heq
  · exact hnext found (hfirst found hfound) value hrest

theorem any (evaluation : Evaluation α) : Gives (fun _ => True) evaluation :=
  fun _ _ => trivial

theorem fail (fault : EvalFault) : Gives sort (Evaluation.fail fault) := nofun

theorem within {evaluation : Evaluation α} (h : Gives sort evaluation) (span : Span) :
    Gives sort (evaluation.within span) := by
  intro value hrun
  obtain ⟨outcome, houtcome, heq⟩ := Option.map_eq_some_iff.1 hrun
  cases outcome with
  | error error => cases heq
  | ok found =>
      cases heq
      exact h _ houtcome

end Gives

def Record.BindsSound (bindings : Record Value) : Prop :=
  ∀ name value, bindings.get? name = some value → value.Sound

theorem Record.bindsSound_empty : Record.empty.BindsSound := nofun

theorem Record.BindsSound.insert {bindings : Record Value} (h : bindings.BindsSound)
    (name : String) {value : Value} (hvalue : value.Sound) :
    (bindings.insert name value).BindsSound := by
  intro other found hfound
  rw [get?_insert] at hfound
  split at hfound
  · cases hfound
    exact hvalue
  · exact h other found hfound

structure Ambient.Sound (ambient : Ambient) : Prop where
  main : ∀ value ∈ ambient.main, value.Sound
  this : ∀ value ∈ ambient.this, value.Sound
  parameters : ambient.parameters.BindsSound

theorem Ambient.sound_none : Ambient.none.Sound := ⟨nofun, nofun, Record.bindsSound_empty⟩

theorem Ambient.Sound.inside {ambient : Ambient} (h : ambient.Sound) {container : Value}
    (hcontainer : container.Sound) : (ambient.inside container).Sound where
  main value hvalue := by
    rcases (Option.orElse_eq_some _ _ _).1 hvalue with hmain | ⟨_, hnew⟩
    · exact h.main value hmain
    · cases hnew
      exact hcontainer
  this := by
    rintro _ ⟨⟩
    exact hcontainer
  parameters := h.parameters

/-- A way to evaluate that comes to sound values for sound expressions. -/
def Evaluator.Sound (eval : Evaluator) : Prop :=
  ∀ expr ambient, expr.Sound → ambient.Sound → Gives Value.Sound (eval expr ambient)

theorem Value.sound_emptyObject : (object .empty).Sound := ⟨.nil, trivial⟩

namespace Container

/-- A container stays sound when a sound value is added under a key that is an
identifier. What a spread brings is sound with the container it comes from. -/
theorem add_gives {container value : Value} {member : Member Expr}
    (hcontainer : container.Sound) (hvalue : value.Sound)
    (hkey : ∀ key ∈ member.key?, isIdentifier key.toList = true) :
    Gives Value.Sound (add container member value) := by
  unfold add
  split
  · next items =>
    have happend {more : List Value} (hmore : ∀ item ∈ more, item.Sound) :
        (Value.array (items ++ more)).Sound :=
      Value.keyed_array.2 (List.forall_mem_append.2 ⟨Value.keyed_array.1 hcontainer, hmore⟩)
    unfold addToArray
    split
    · exact .pure (happend (Value.keyed_array.1 hvalue))
    · exact (Gives.fail _).within _
    · exact .pure (happend (List.forall_mem_singleton.2 hvalue))
    · exact .pure hcontainer
  · unfold addToObject
    split
    · exact .pure (hcontainer.insertAll hvalue.2)
    · exact (Gives.fail _).within _
    · exact .pure (hcontainer.insert (hkey _ rfl) hvalue)
    · exact .pure hcontainer
  · exact .pure hcontainer

theorem sound_emptyFor (value : Value) : (emptyFor value).Sound := by
  unfold emptyFor
  split
  · trivial
  · exact Value.sound_emptyObject

variable {eval : Evaluator} {ambient : Ambient} (heval : eval.Sound) (hambient : ambient.Sound)

include heval hambient

/-- Members are added one after the other, and each of them sees a container
that is sound already. -/
theorem addMembers_gives {members : List (Member Expr)}
    (hvalues : ∀ member ∈ members, member.value.Sound)
    (hkeys : ∀ member ∈ members, ∀ key ∈ member.key?, isIdentifier key.toList = true)
    {container : Value} (hcontainer : container.Sound) :
    Gives Value.Sound (addMembers eval ambient container members) := by
  induction members generalizing container with
  | nil => exact .pure hcontainer
  | cons member rest ih =>
      obtain ⟨hmember, hrest⟩ := List.forall_mem_cons.1 hvalues
      obtain ⟨hkey, hothers⟩ := List.forall_mem_cons.1 hkeys
      refine (heval _ _ hmember (hambient.inside hcontainer)).bind fun value hvalue => ?_
      exact (add_gives hcontainer hvalue hkey).bind fun next hnext => ih hrest hothers hnext

theorem evaluate_gives {body : Container Expr}
    (hvalues : ∀ member ∈ body.members, member.value.Sound)
    (hkeys : ∀ member ∈ body.members, ∀ key ∈ member.key?, isIdentifier key.toList = true) :
    Gives Value.Sound (body.evaluate eval ambient) := by
  unfold evaluate
  split
  · have hempty : (Value.array []).Sound := trivial
    exact addMembers_gives heval hambient hvalues hkeys hempty
  · next argument rest _ hmembers =>
    rw [hmembers, List.forall_mem_cons] at hvalues hkeys
    refine (heval argument ambient hvalues.1 hambient).bind fun first hfirst => ?_
    refine (add_gives (sound_emptyFor first) hfirst hkeys.1).bind fun next hnext => ?_
    exact addMembers_gives heval hambient hvalues.2 hkeys.2 hnext
  · exact addMembers_gives heval hambient hvalues hkeys Value.sound_emptyObject

end Container

namespace Class

/-- Parameters are bound to sound values; a rest parameter to an array of
them. -/
theorem bindParameters_sound {bound : Record Value} (hbound : bound.BindsSound)
    (parameters : List Parameter) {values : List Value} (hvalues : ∀ value ∈ values, value.Sound) :
    (bindParameters bound parameters values).BindsSound := by
  induction parameters generalizing bound values with
  | nil => exact hbound
  | cons parameter rest ih =>
      obtain ⟨name, isRest⟩ := parameter
      cases isRest with
      | true => exact ih (hbound.insert name (Value.keyed_array.2 hvalues)) nofun
      | false =>
          cases values with
          | nil =>
              have hmissing : Value.undefined.Sound := trivial
              exact ih (hbound.insert name hmissing) nofun
          | cons value others =>
              obtain ⟨hvalue, hothers⟩ := List.forall_mem_cons.1 hvalues
              exact ih (hbound.insert name hvalue) hothers

section

variable {eval : Evaluator} {ambient : Ambient} (heval : eval.Sound) (hambient : ambient.Sound)

include heval hambient

theorem argumentValues_gives {arguments : List (Argument Expr)}
    (h : ∀ argument ∈ arguments, argument.value.Sound) :
    Gives (fun values => ∀ value ∈ values, value.Sound)
      (argumentValues eval ambient arguments) := by
  induction arguments with
  | nil => exact .pure nofun
  | cons argument rest ih =>
      obtain ⟨hargument, hrest⟩ := List.forall_mem_cons.1 h
      have hvalues {values : List Value} (hvalues : ∀ value ∈ values, value.Sound) :
          Gives (fun values => ∀ value ∈ values, value.Sound) (do
            return values ++ (← argumentValues eval ambient rest)) :=
        (ih hrest).bind fun _ hothers => .pure (List.forall_mem_append.2 ⟨hvalues, hothers⟩)
      refine (heval _ _ hargument hambient).bind fun value hvalue => ?_
      dsimp only
      split
      · exact (Gives.pure (List.forall_mem_singleton.2 hvalue)).bind fun _ => hvalues
      · exact (Gives.pure (Value.keyed_array.1 hvalue)).bind fun _ => hvalues
      · exact ((Gives.fail _).within _).bind fun _ => hvalues

theorem constructed_gives (cls : Class) {field : Field TypeExpr} (hfield : field.Sound) :
    Gives (fun chosen => ∀ value ∈ chosen, value.Sound) (constructed eval ambient cls field) := by
  unfold constructed
  split
  · next default hdefault =>
    refine (heval default ambient (hfield.default default hdefault) hambient).bind ?_
    intro value hvalue
    refine .pure ?_
    split
    · exact nofun
    · rintro found ⟨⟩
      exact hvalue
  · split
    · exact .pure nofun
    · exact .fail _

theorem completed_gives (cls : Class) {provided : Record Value}
    (hprovided : (Value.object provided).Sound) {field : Field TypeExpr} (hfield : field.Sound) :
    Gives (fun chosen => ∀ value ∈ chosen, value.Sound)
      (completed eval ambient cls provided field) := by
  unfold completed
  split
  · next value _ hvalue =>
    refine .pure ?_
    rintro found ⟨⟩
    exact hprovided.get? hvalue
  · next default _ hdefault =>
    rw [← bind_pure_comp]
    refine (heval default ambient (hfield.default default hdefault) hambient).bind ?_
    intro value hvalue
    refine .pure ?_
    rintro found ⟨⟩
    exact hvalue
  · split
    · exact .pure nofun
    · exact .fail _

end

/-- An instance is sound if its fields are and each of them is chosen soundly.
The order of the fields does not matter for it. -/
theorem build_gives (cls : Class) (classes : ClassTable)
    {choose : Field TypeExpr → Evaluation (Option Value)} {fields : List (Field TypeExpr)}
    (hfields : ∀ field ∈ fields, field.Sound)
    (hchoose : ∀ field ∈ fields, Gives (fun chosen => ∀ value ∈ chosen, value.Sound) (choose field))
    {built : Record Value} (hbuilt : (Value.object built).Sound) :
    Gives (fun record => (Value.object record).Sound)
      (cls.build classes choose built fields) := by
  induction fields generalizing built with
  | nil => exact .pure hbuilt
  | cons field rest ih =>
      obtain ⟨hfield, hrest⟩ := List.forall_mem_cons.1 hfields
      obtain ⟨hchosen, hothers⟩ := List.forall_mem_cons.1 hchoose
      refine hchosen.bind fun chosen hvalues => ?_
      cases chosen with
      | some value =>
          refine (Gives.any _).bind fun _ _ => ih hrest hothers ?_
          exact hbuilt.insert hfield.name (hvalues value rfl)
      | none => exact ih hrest hothers hbuilt

variable {eval : Evaluator} {ambient : Ambient} (heval : eval.Sound) (hambient : ambient.Sound)

include heval hambient

/-- A call of a class gives a sound instance, as its arguments and the defaults
of its class are sound. -/
theorem construct_gives (classes : ClassTable) {cls : Class} {arguments : List (Argument Expr)}
    (hcls : ∀ field ∈ cls.fields.values, field.Sound)
    (h : ∀ argument ∈ arguments, argument.value.Sound) :
    Gives Value.Sound (construct eval ambient classes cls arguments) := by
  refine (argumentValues_gives heval hambient h).bind fun values hvalues => ?_
  have hinner : Ambient.Sound { ambient with
      parameters := bindParameters ambient.parameters cls.parameters values } :=
    ⟨hambient.main, hambient.this, bindParameters_sound hambient.parameters _ hvalues⟩
  refine Gives.bind (build_gives cls classes hcls (fun field hfield => ?_)
    Value.sound_emptyObject) fun record hrecord => .pure hrecord
  exact constructed_gives heval hinner cls (hcls field hfield)

/-- An instance with a body is sound: what the body provides is, and defaults
are evaluated in sound surroundings. -/
theorem instantiate_gives (classes : ClassTable) {cls : Class} {body : Container Expr}
    (hcls : ∀ field ∈ cls.fields.values, field.Sound)
    (hvalues : ∀ member ∈ body.members, member.value.Sound)
    (hkeys : ∀ member ∈ body.members, ∀ key ∈ member.key?, isIdentifier key.toList = true) :
    Gives Value.Sound (instantiate eval ambient classes cls body) := by
  refine (Container.evaluate_gives heval hambient hvalues hkeys).bind fun value hvalue => ?_
  cases value with
  | object provided =>
      refine Gives.bind (build_gives cls classes hcls (fun field hfield => ?_)
        Value.sound_emptyObject) fun record hrecord => ?_
      · exact completed_gives heval hambient cls hvalue (hcls field hfield)
      · dsimp only
        split
        · exact .pure hrecord
        · exact .fail _
  | _ => exact .fail _

end Class

/-- A scope in which names stand for sound values and classes have sound
fields. -/
structure Scope.Sound (scope : Scope) : Prop where
  classes : scope.classes.FieldsAre Field.Sound
  bindings : scope.bindings.BindsSound

namespace Scope

variable {scope : Scope} {ambient : Ambient}

theorem root_gives (hscope : scope.Sound) (hambient : ambient.Sound) (name : String) :
    Gives Value.Sound (scope.root ambient name) := by
  have hcontainer {container : Option Value} (h : ∀ value ∈ container, value.Sound) :
      (container.getD .undefined).Sound := by
    cases container with
    | none => trivial
    | some value => exact h value rfl
  unfold root
  split
  · next value hroot =>
    refine .pure ?_
    rw [root?] at hroot
    split at hroot
    · cases hroot
      exact hcontainer hambient.main
    · split at hroot
      · cases hroot
        exact hcontainer hambient.this
      · rcases (Option.orElse_eq_some _ _ _).1 hroot with hbound | ⟨_, hparameter⟩
        · exact hscope.bindings name value hbound
        · exact hambient.parameters name value hparameter
  · exact .fail _

/-- A literal gives a sound value, since no literal is a container and a regular
expression is one that a literal stands for. -/
theorem literal_gives (value : Literal)
    (hregExp : ∀ regExp, value = .regExp regExp → regExp.IsLiteral) :
    Gives Value.Sound (scope.literal ambient value) := by
  unfold literal
  split
  case h_8 found => exact .pure (hregExp found rfl)
  case h_9 =>
    split
    · exact .pure trivial
    · exact .fail _
  all_goals exact .pure trivial

theorem findClass_gives (name : String) :
    Gives (fun cls => scope.classes.get? name = some cls) (scope.findClass name) := by
  unfold findClass
  split
  · next hfound => exact .pure hfound
  · exact .fail _

/-- One step of evaluation gives sound values if the evaluation of parts does,
in sound surroundings. -/
theorem evalParts_gives (hscope : scope.Sound) (hambient : ambient.Sound) {eval : Evaluator}
    (heval : eval.Sound) {expr : Expr} (hown : expr.OwnSound)
    (hparts : ∀ part ∈ expr.parts, part.Sound) :
    Gives Value.Sound (scope.evalParts eval ambient expr) := by
  cases expr with
  | ident span name =>
      rw [evalParts, named]
      split
      · exact .fail _
      · exact root_gives hscope hambient name
  | path span segments =>
      cases segments with
      | nil => exact .fail _
      | cons name keys =>
          exact (root_gives hscope hambient name).bind fun _ hvalue =>
            .pure (hvalue.follow trivial keys)
  | literal span value =>
      refine literal_gives value ?_
      rintro regExp rfl
      exact hown
  | container span body =>
      exact Container.evaluate_gives heval hambient (List.forall_mem_map.1 hparts) hown
  | call span className arguments =>
      refine (findClass_gives className).bind fun cls hcls => ?_
      split
      · exact Class.construct_gives heval hambient _ (hscope.classes className cls hcls)
          (List.forall_mem_map.1 hparts)
      · exact .fail _
  | classInstance span className body =>
      refine (findClass_gives className).bind fun cls hcls => ?_
      split
      · exact .fail _
      · exact Class.instantiate_gives heval hambient _ (hscope.classes className cls hcls)
          (List.forall_mem_map.1 hparts) hown
  | conditional span left right =>
      obtain ⟨hleft, hrest⟩ := List.forall_mem_cons.1 hparts
      refine (heval left ambient hleft hambient).bind fun value hvalue => ?_
      split
      · exact heval right ambient (hrest right List.mem_cons_self) hambient
      · exact .pure hvalue

/-- The value of a sound expression has identifiers for keys, and regular
expressions that stand in literals. -/
theorem eval_gives (scope : Scope) (hscope : scope.Sound) (depth : Nat) :
    (scope.eval depth).Sound := by
  induction depth with
  | zero => exact fun _ _ _ _ => nofun
  | succ depth ih =>
      intro expr ambient hexpr hambient
      exact (evalParts_gives hscope hambient ih (hexpr expr .refl) hexpr.parts).within expr.span

end Scope

end ConfigNotation
