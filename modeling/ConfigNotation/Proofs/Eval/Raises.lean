import ConfigNotation.Proofs.Eval.Depth
import ConfigNotation.Proofs.Syntax.Spans

/-!
Which errors an evaluation comes to. An error arises without a place and gets the span of
the innermost expression around it; its position is left open until the text is at hand.
So the span of an error starts where the tokens of one of the parts of an expression do,
or those of a part of a default of a class.
-/

namespace ConfigNotation

namespace EvalError

structure Unplaced (error : EvalError) : Prop where
  span : error.span = none
  position : error.position = none

/-- An error whose span, if it has one, starts in some tokens. -/
structure Within (tokens : List Token) (error : EvalError) : Prop where
  span : ∀ span ∈ error.span, StartsIn tokens span
  position : error.position = none

/-- An error with a span that starts in some tokens. -/
structure Placed (tokens : List Token) (error : EvalError) : Prop where
  span : ∃ span, error.span = some span ∧ StartsIn tokens span
  position : error.position = none

variable {tokens : List Token} {error : EvalError}

/-- A fault is raised without a place. It gets one from the first expression
around it. -/
theorem unplaced_raise (fault : EvalFault) : (raise fault).Unplaced := ⟨rfl, rfl⟩

/-- An error without a place has no span that could start outside of the
tokens. -/
theorem Unplaced.withinSome (h : error.Unplaced) : error.Within tokens where
  span span hspan := by
    rw [h.span] at hspan
    cases hspan
  position := h.position

theorem Placed.withinSome (h : error.Placed tokens) : error.Within tokens where
  span span hspan := by
    obtain ⟨found, hfound, hstarts⟩ := h.span
    rw [hfound] at hspan
    cases hspan
    exact hstarts
  position := h.position

/-- The narrower place stays. -/
theorem Within.placed (h : error.Within tokens) {span : Span} (hspan : StartsIn tokens span) :
    (error.within span).Placed tokens where
  span := by
    cases hfound : error.span with
    | none => exact ⟨span, by rw [within, hfound]; rfl, hspan⟩
    | some found => exact ⟨found, by rw [within, hfound]; rfl, h.span found hfound⟩
  position := h.position

end EvalError

open EvalError

def Fails {α : Type} (sort : EvalError → Prop) (result : Except EvalError α) : Prop :=
  ∀ error, result = .error error → sort error

/-- All errors that an evaluation comes to are of some sort. -/
def Raises {α : Type} (sort : EvalError → Prop) (evaluation : Evaluation α) : Prop :=
  ∀ error, evaluation.run = some (.error error) → sort error

section

variable {α β : Type} {sort other : EvalError → Prop}

/-- A chain of two results fails with errors of a sort if both parts do,
whatever value is handed on. -/
theorem Fails.bind {first : Except EvalError α} {next : α → Except EvalError β}
    (hfirst : Fails sort first) (hnext : ∀ value, Fails sort (next value)) :
    Fails sort (first >>= next) := by
  cases first with
  | error error =>
      rintro found ⟨⟩
      exact hfirst error rfl
  | ok value => exact hnext value

theorem fails_ok (value : α) : Fails sort (.ok value : Except EvalError α) := by
  rintro error ⟨⟩

theorem fails_raise (fault : EvalFault) :
    Fails Unplaced (.error (.raise fault) : Except EvalError α) := by
  rintro error ⟨⟩
  exact unplaced_raise fault

namespace Raises

theorem pure (value : α) : Raises sort (Pure.pure value) := nofun

/-- An evaluation of two steps raises errors of a sort if each step does,
whatever value the second one starts from. -/
theorem bind {first : Evaluation α} {next : α → Evaluation β} (hfirst : Raises sort first)
    (hnext : ∀ value, Raises sort (next value)) :
    Raises sort (first >>= next) := by
  intro error hrun
  rcases Evaluation.run_bind_eq_some.1 hrun with ⟨_, herror, heq⟩ | ⟨value, _, hrest⟩
  · cases heq
    exact hfirst error herror
  · exact hnext value error hrest

theorem map {evaluation : Evaluation α} (f : α → β) (h : Raises sort evaluation) :
    Raises sort (f <$> evaluation) := by
  rw [← bind_pure_comp]
  exact h.bind fun _ => .pure _

theorem imp {evaluation : Evaluation α} (h : Raises sort evaluation)
    (hsort : ∀ error, sort error → other error) : Raises other evaluation :=
  fun error hrun => hsort error (h error hrun)

theorem ofExcept {result : Except EvalError α} (h : Fails sort result) :
    Raises sort (Evaluation.ofExcept result) :=
  fun error hrun => h error (Option.some.inj hrun)

theorem fail (fault : EvalFault) : Raises Unplaced (Evaluation.fail fault : Evaluation α) := by
  rintro error ⟨⟩
  exact unplaced_raise fault

theorem withinSome {tokens : List Token} {evaluation : Evaluation α}
    (h : Raises Unplaced evaluation) : Raises (Within tokens) evaluation :=
  h.imp fun _ h => h.withinSome

/-- Naming a span that starts in the tokens places every error: those without a
place get this one, and the others have theirs already. -/
theorem placed {tokens : List Token} {evaluation : Evaluation α} {span : Span}
    (h : Raises (Within tokens) evaluation) (hspan : StartsIn tokens span) :
    Raises (Placed tokens) (evaluation.within span) := by
  intro error hrun
  obtain ⟨outcome, houtcome, heq⟩ := Option.map_eq_some_iff.1 hrun
  cases outcome with
  | error inner =>
      cases heq
      exact (h inner houtcome).placed hspan
  | ok value => cases heq

end Raises

end

namespace Value

variable (classes : ClassTable)

theorem mismatch_fails (value : Value) (place : Place) (expected : String) :
    Fails Unplaced (.error (value.mismatch place expected) : Except EvalError Unit) :=
  fails_raise _

theorem checkNames_fails (record : Record Value) (fields : List (Field TypeExpr)) (place : Place)
    (className : Option String) :
    Fails Unplaced (checkNames record fields place className) := by
  rw [checkNames]
  split
  · exact fails_ok _
  · exact fails_raise _

mutual

/-- A failed check has no place yet, for any type and at any depth of the value.
Its message names a part of the value and no part of the text. -/
theorem check_fails (value : Value) (type : TypeExpr) (place : Place) :
    Fails Unplaced (value.check classes type place) := by
  rw [check.eq_def]
  split
  · split
    · split
      · exact fails_ok _
      · exact mismatch_fails _ _ _
    · split
      · exact fails_raise _
      · exact (checkFields_fails _ _ _ _).bind fun _ => checkNames_fails _ _ _ _
      · exact mismatch_fails _ _ _
  · exact (checkFields_fails _ _ _ _).bind fun _ => checkNames_fails _ _ _ _
  · exact mismatch_fails _ _ _
  · exact fails_ok _
  · exact checkItems_fails _ _ _ _
  · exact mismatch_fails _ _ _
  · exact mismatch_fails _ _ _
  · split
    · exact checkTuple_fails _ _ _ _
    · exact fails_raise _
  · exact mismatch_fails _ _ _
  · split
    · exact fails_ok _
    · exact fails_raise _
  · exact fails_raise _
termination_by (sizeOf value, 0)

theorem checkFields_fails (record : Record Value) (fields : List (Field TypeExpr))
    (place : Place) (className : Option String) :
    Fails Unplaced (checkFields classes record fields place className) := by
  cases fields with
  | nil =>
      rw [checkFields]
      exact fails_ok _
  | cons field rest =>
      rw [checkFields]
      have hrest := checkFields_fails record rest place className
      split
      · next value hvalue =>
        exact (check_fails value _ _).bind fun _ => hrest
      · split
        · exact (fails_raise _).bind fun _ => hrest
        · exact hrest
termination_by (sizeOf record, fields.length)
decreasing_by
  · apply Prod.Lex.right
    simp
  · next hvalue =>
    have hless := Record.sizeOf_lookup_lt hvalue
    cases record
    apply Prod.Lex.left
    simp_all
    omega

theorem checkItems_fails (items : List Value) (element : TypeExpr) (place : Place) (index : Nat) :
    Fails Unplaced (checkItems classes items element place index) := by
  cases items with
  | nil =>
      rw [checkItems]
      exact fails_ok _
  | cons item rest =>
      rw [checkItems]
      exact (check_fails _ _ _).bind fun _ => checkItems_fails rest _ _ _
termination_by (sizeOf items, 0)

theorem checkTuple_fails (items : List Value) (elements : List TypeExpr) (place : Place)
    (index : Nat) :
    Fails Unplaced (checkTuple classes items elements place index) := by
  rw [checkTuple.eq_def]
  split
  · exact (check_fails _ _ _).bind fun _ => checkTuple_fails _ _ _ _
  · exact fails_ok _
termination_by (sizeOf items, 0)

end

end Value

section

variable {tokens : List Token} {eval : Evaluator}
  (heval : ∀ expr, expr.LiesIn tokens → ∀ ambient, Raises (Within tokens) (eval expr ambient))

/-- Adding a member fails only at the spread of a value of another kind, which
is placed at the expression that is spread. -/
theorem Container.add_raises (container : Value) {member : Member Expr} (value : Value)
    (h : member.value.LiesIn tokens) :
    Raises (Within tokens) (add container member value) := by
  have hspread (fault : EvalFault) {argument : Expr} (hargument : argument.LiesIn tokens) :
      Raises (Within tokens) ((Evaluation.fail fault : Evaluation Value).within argument.span) :=
    ((Raises.fail fault).withinSome.placed (hargument _ .refl)).imp fun _ h => h.withinSome
  unfold add
  split
  · unfold addToArray
    split
    · exact .pure _
    · exact hspread _ h
    · exact .pure _
    · exact .pure _
  · unfold addToObject
    split
    · exact .pure _
    · exact hspread _ h
    · exact .pure _
    · exact .pure _
  · exact .pure _

include heval

/-- All errors in the members of a container are placed in the tokens if their
values lie there. The container that is built so far adds none. -/
theorem Container.addMembers_raises (ambient : Ambient) {members : List (Member Expr)}
    (h : ∀ member ∈ members, member.value.LiesIn tokens) (container : Value) :
    Raises (Within tokens) (addMembers eval ambient container members) := by
  induction members generalizing container with
  | nil => exact .pure _
  | cons member rest ih =>
      obtain ⟨hmember, hrest⟩ := List.forall_mem_cons.1 h
      refine (heval _ hmember _).bind fun value => ?_
      exact (add_raises container value hmember).bind fun next => ih hrest next

theorem Container.evaluate_raises (ambient : Ambient) {body : Container Expr}
    (h : ∀ member ∈ body.members, member.value.LiesIn tokens) :
    Raises (Within tokens) (body.evaluate eval ambient) := by
  unfold evaluate
  split
  · exact addMembers_raises heval ambient h _
  · next argument rest _ hmembers =>
    rw [hmembers, List.forall_mem_cons] at h
    refine (heval argument h.1 ambient).bind fun first => ?_
    exact (add_raises _ first h.1).bind fun next => addMembers_raises heval ambient h.2 next
  · exact addMembers_raises heval ambient h _

namespace Class

theorem argumentValues_raises (ambient : Ambient) {arguments : List (Argument Expr)}
    (h : ∀ argument ∈ arguments, argument.value.LiesIn tokens) :
    Raises (Within tokens) (argumentValues eval ambient arguments) := by
  induction arguments with
  | nil => exact .pure _
  | cons argument rest ih =>
      obtain ⟨hargument, hrest⟩ := List.forall_mem_cons.1 h
      have hvalues (values : List Value) : Raises (Within tokens) (do
          return values ++ (← argumentValues eval ambient rest)) :=
        (ih hrest).bind fun _ => .pure _
      refine (heval _ hargument _).bind fun value => ?_
      dsimp only
      split
      · exact (Raises.pure _).bind hvalues
      · exact (Raises.pure _).bind hvalues
      · have hfail (fault : EvalFault) := (Raises.fail (α := List Value) fault).withinSome.placed
          (hargument _ .refl)
        exact ((hfail _).imp fun _ h => h.withinSome).bind hvalues

omit heval in
/-- Filling the fields of an instance raises what choosing a value for a field
raises, and the failures of checks, which have no place yet. -/
theorem build_raises (cls : Class) (classes : ClassTable)
    {choose : Field TypeExpr → Evaluation (Option Value)} {fields : List (Field TypeExpr)}
    (h : ∀ field ∈ fields, Raises (Within tokens) (choose field)) (built : Record Value) :
    Raises (Within tokens) (cls.build classes choose built fields) := by
  induction fields generalizing built with
  | nil => exact .pure _
  | cons field rest ih =>
      obtain ⟨hfield, hrest⟩ := List.forall_mem_cons.1 h
      refine hfield.bind fun chosen => ?_
      cases chosen with
      | some value =>
          exact (Raises.ofExcept (value.check_fails classes _ _)).withinSome.bind
            fun _ => ih hrest _
      | none => exact ih hrest _

theorem constructed_raises (ambient : Ambient) (cls : Class) {field : Field TypeExpr}
    (h : ∀ default ∈ field.default, default.LiesIn tokens) :
    Raises (Within tokens) (constructed eval ambient cls field) := by
  unfold constructed
  split
  · next default hdefault => exact (heval _ (h default hdefault) ambient).bind fun _ => .pure _
  · split
    · exact .pure _
    · exact (Raises.fail _).withinSome

theorem completed_raises (ambient : Ambient) (cls : Class) (provided : Record Value)
    {field : Field TypeExpr} (h : ∀ default ∈ field.default, default.LiesIn tokens) :
    Raises (Within tokens) (completed eval ambient cls provided field) := by
  unfold completed
  split
  · exact .pure _
  · next default _ hdefault => exact (heval _ (h default hdefault) ambient).map some
  · split
    · exact .pure _
    · exact (Raises.fail _).withinSome

/-- A call raises errors of its arguments, which lie in the tokens, of the
defaults of its class, which do as well, and its own without a place. -/
theorem construct_raises (ambient : Ambient) (classes : ClassTable) {cls : Class}
    {arguments : List (Argument Expr)} (hcls : DefaultsLieIn cls.fields.values tokens)
    (h : ∀ argument ∈ arguments, argument.value.LiesIn tokens) :
    Raises (Within tokens) (construct eval ambient classes cls arguments) := by
  refine (argumentValues_raises heval ambient h).bind fun values => ?_
  refine Raises.bind ?_ fun _ => .pure _
  exact build_raises cls classes (fun field hfield =>
    constructed_raises heval _ cls (hcls field hfield)) _

/-- An instance raises errors of its body and of the defaults of its class. Both
lie in the tokens; all others have no place yet. -/
theorem instantiate_raises (ambient : Ambient) (classes : ClassTable) {cls : Class}
    {body : Container Expr} (hcls : DefaultsLieIn cls.fields.values tokens)
    (h : ∀ member ∈ body.members, member.value.LiesIn tokens) :
    Raises (Within tokens) (instantiate eval ambient classes cls body) := by
  refine (Container.evaluate_raises heval ambient h).bind fun value => ?_
  cases value with
  | object provided =>
      refine Raises.bind ?_ fun _ => ?_
      · exact build_raises cls classes (fun field hfield =>
          completed_raises heval ambient cls provided (hcls field hfield)) _
      · dsimp only
        split
        · exact .pure _
        · exact (Raises.fail _).withinSome
  | _ => exact (Raises.fail _).withinSome

end Class

end

/-- The classes of a table, with what they inherit, have defaults that start in
some tokens. -/
def ClassTable.DefaultsLieIn (classes : ClassTable) (tokens : List Token) : Prop :=
  ∀ name cls, classes.get? name = some cls → ConfigNotation.DefaultsLieIn cls.fields.values tokens

namespace Scope

variable {tokens : List Token} (scope : Scope) (ambient : Ambient)

theorem root_raises (name : String) : Raises Unplaced (scope.root ambient name) := by
  unfold root
  split
  · exact .pure _
  · exact .fail _

theorem named_raises (name : String) : Raises Unplaced (scope.named ambient name) := by
  unfold named
  split
  · exact .fail _
  · exact scope.root_raises ambient name

/-- A dotted path that is not bound is told by its name, and the place is that
of the expression around it. -/
theorem reference_raises (segments : List String) :
    Raises Unplaced (scope.reference ambient segments) := by
  cases segments with
  | nil => exact .fail _
  | cons name keys => exact (scope.root_raises ambient name).bind fun _ => .pure _

/-- A literal fails only when its file cannot be read, and it does not know where
it stands. Placeholders never fail: what fills none is left to their defaults. -/
theorem literal_raises (value : Literal) : Raises Unplaced (scope.literal ambient value) := by
  unfold literal
  split
  case h_9 =>
    split
    · exact .pure _
    · exact .fail _
  all_goals exact .pure _

theorem findClass_raises (name : String) : Raises Unplaced (scope.findClass name) := by
  unfold findClass
  split
  · exact .pure _
  · exact .fail _

theorem get?_of_findClass {name : String} {cls : Class}
    (h : (scope.findClass name).run = some (.ok cls)) : scope.classes.get? name = some cls := by
  unfold findClass at h
  split at h
  · next hfound =>
    cases h
    exact hfound
  · cases h

/-- One step of evaluation raises errors that are placed in the tokens, given
that the parts do and that the defaults of all classes lie there. -/
theorem evalParts_raises {eval : Evaluator} {expr : Expr}
    (hclasses : scope.classes.DefaultsLieIn tokens)
    (heval : ∀ expr, expr.LiesIn tokens → ∀ ambient, Raises (Within tokens) (eval expr ambient))
    (h : ∀ part ∈ expr.parts, part.LiesIn tokens) :
    Raises (Within tokens) (scope.evalParts eval ambient expr) := by
  -- what is done with a class is known to be done with one of the table
  have hfound (name : String) {next : Class → Evaluation Value}
      (hnext : ∀ cls, scope.classes.get? name = some cls → Raises (Within tokens) (next cls)) :
      Raises (Within tokens) (scope.findClass name >>= next) := by
    intro error hrun
    rcases Evaluation.run_bind_eq_some.1 hrun with ⟨_, herror, heq⟩ | ⟨cls, hcls, hrest⟩
    · cases heq
      exact (scope.findClass_raises name error herror).withinSome
    · exact hnext cls (scope.get?_of_findClass hcls) error hrest
  cases expr with
  | ident span name => exact (scope.named_raises ambient name).withinSome
  | path span segments => exact (scope.reference_raises ambient segments).withinSome
  | literal span value => exact (scope.literal_raises ambient value).withinSome
  | container span body =>
      exact Container.evaluate_raises heval ambient (List.forall_mem_map.1 h)
  | call span className arguments =>
      refine hfound className fun cls hcls => ?_
      split
      · exact Class.construct_raises heval ambient _ (hclasses className cls hcls)
          (List.forall_mem_map.1 h)
      · exact (Raises.fail _).withinSome
  | classInstance span className body =>
      refine hfound className fun cls hcls => ?_
      split
      · exact (Raises.fail _).withinSome
      · exact Class.instantiate_raises heval ambient _ (hclasses className cls hcls)
          (List.forall_mem_map.1 h)
  | conditional span left right =>
      obtain ⟨hleft, hrest⟩ := List.forall_mem_cons.1 h
      refine (heval left hleft ambient).bind fun value => ?_
      split
      · exact heval right (hrest right List.mem_cons_self) ambient
      · exact .pure _

/-- An error in an expression has the span of one of its parts, or of a part of
a default of a class. -/
theorem eval_raises (scope : Scope) (hclasses : scope.classes.DefaultsLieIn tokens)
    (depth : Nat) {expr : Expr} (h : expr.LiesIn tokens) (ambient : Ambient) :
    Raises (Placed tokens) (scope.eval depth expr ambient) := by
  induction depth generalizing expr ambient with
  | zero => exact nofun
  | succ depth ih =>
      have hparts : ∀ part ∈ expr.parts, part.LiesIn tokens :=
        fun part hpart inner hinner => h inner (.head hpart hinner)
      have heval : ∀ expr, expr.LiesIn tokens → ∀ ambient,
          Raises (Within tokens) (scope.eval depth expr ambient) :=
        fun expr hexpr ambient => (ih hexpr ambient).imp fun _ h => h.withinSome
      exact (scope.evalParts_raises ambient hclasses heval hparts).placed (h expr .refl)

end Scope

end ConfigNotation
