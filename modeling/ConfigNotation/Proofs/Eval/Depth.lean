import ConfigNotation.Eval.Expr

/-!
An expression that has an outcome keeps it when more depth is allowed. Only the
evaluation of parts takes depth, so that each way to build an expression from its
parts is followed once, for any two evaluators of which one extends the other.
-/

namespace ConfigNotation

namespace Evaluation

variable {α β : Type}

/-- One evaluation has the outcome of another one, if that has any. -/
def Extends (more less : Evaluation α) : Prop :=
  ∀ outcome, less.run = some outcome → more.run = some outcome

theorem Extends.refl (evaluation : Evaluation α) : evaluation.Extends evaluation :=
  fun _ h => h

theorem Extends.exhausted (evaluation : Evaluation α) : evaluation.Extends exhausted :=
  fun _ h => nomatch h

/-- What a chain of two evaluations comes to, with the error of the first one
told apart from that of the second. All lemmas on chains are read off this
one. -/
theorem run_bind_eq_some {evaluation : Evaluation α} {next : α → Evaluation β}
    {outcome : Except EvalError β} :
    (evaluation >>= next).run = some outcome ↔
      (∃ error, evaluation.run = some (.error error) ∧ outcome = .error error) ∨
        ∃ value, evaluation.run = some (.ok value) ∧ (next value).run = some outcome := by
  rw [ExceptT.run_bind]
  rcases evaluation.run with _ | (error | value)
  · simp
  · simp [pure, eq_comm]
  · simp

theorem run_bind_eq_ok {evaluation : Evaluation α} {next : α → Evaluation β} {result : β} :
    (evaluation >>= next).run = some (.ok result) ↔
      ∃ value, evaluation.run = some (.ok value) ∧ (next value).run = some (.ok result) := by
  rw [run_bind_eq_some]
  constructor
  · rintro (⟨error, _, herror⟩ | hnext)
    · cases herror
    · exact hnext
  · exact .inr

theorem run_bind_eq_error {evaluation : Evaluation α}
    {next : α → Evaluation β} {error : EvalError} :
    (evaluation >>= next).run = some (.error error) ↔ evaluation.run = some (.error error) ∨
      ∃ value, evaluation.run = some (.ok value) ∧ (next value).run = some (.error error) := by
  rw [run_bind_eq_some]
  refine or_congr_left ⟨?_, fun h => ⟨error, h, rfl⟩⟩
  rintro ⟨_, hrun, ⟨⟩⟩
  exact hrun

theorem run_pure_eq_ok {value result : α} :
    (pure value : Evaluation α).run = some (.ok result) ↔ value = result := by
  constructor
  · intro h
    cases h
    rfl
  · rintro rfl
    rfl

theorem run_fail_ne_ok {fault : EvalFault} {result : α} :
    (fail fault : Evaluation α).run ≠ some (Except.ok result) :=
  nofun

theorem run_within_eq_ok {evaluation : Evaluation α} {span : Span} {result : α} :
    (evaluation.within span).run = some (.ok result) ↔
      evaluation.run = some (.ok result) := by
  change evaluation.run.map _ = some (Except.ok result) ↔ _
  rcases evaluation.run with _ | (error | value)
  · exact Iff.rfl
  · exact iff_of_false nofun nofun
  · exact Iff.rfl

/-- An error behind a place is the one before it, with the place recorded unless
it had a narrower one. -/
theorem run_within_eq_error {evaluation : Evaluation α} {span : Span} {error : EvalError} :
    (evaluation.within span).run = some (.error error) ↔
      ∃ cause, evaluation.run = some (.error cause) ∧ error = cause.within span := by
  change evaluation.run.map _ = some (Except.error error) ↔ _
  rcases evaluation.run with _ | (cause | value)
  · exact iff_of_false nofun nofun
  · constructor
    · rintro ⟨⟩
      exact ⟨cause, rfl, rfl⟩
    · rintro ⟨_, ⟨⟩, rfl⟩
      rfl
  · exact iff_of_false nofun nofun

/-- Two steps with more depth have all the outcomes of two steps with less. The
value in between is the same, so the second step starts alike. -/
theorem Extends.bind {more less : Evaluation α} {moreNext lessNext : α → Evaluation β}
    (hfirst : more.Extends less) (hnext : ∀ value, (moreNext value).Extends (lessNext value)) :
    (more >>= moreNext).Extends (less >>= lessNext) := by
  intro outcome houtcome
  rw [run_bind_eq_some] at houtcome ⊢
  rcases houtcome with ⟨error, hrun, hout⟩ | ⟨value, hrun, hout⟩
  · exact .inl ⟨error, hfirst _ hrun, hout⟩
  · exact .inr ⟨value, hfirst _ hrun, hnext value outcome hout⟩

theorem Extends.map {more less : Evaluation α} (f : α → β) (h : more.Extends less) :
    (f <$> more).Extends (f <$> less) := by
  simp only [← bind_pure_comp]
  exact h.bind fun _ => .refl _

theorem Extends.within {more less : Evaluation α} (span : Span) (h : more.Extends less) :
    (more.within span).Extends (less.within span) := by
  intro outcome houtcome
  obtain ⟨inner, hinner, rfl⟩ := Option.map_eq_some_iff.1 houtcome
  exact Option.map_eq_some_iff.2 ⟨inner, h inner hinner, rfl⟩

end Evaluation

open Evaluation

/-- One way to evaluate has all the outcomes of another one. -/
def Evaluator.Extends (more less : Evaluator) : Prop :=
  ∀ expr ambient, (more expr ambient).Extends (less expr ambient)

section

variable {more less : Evaluator} (heval : more.Extends less)

include heval

/-- More depth changes no member that had a value, and so nothing that the
members behind it see. -/
theorem Container.addMembers_extends (ambient : Ambient) (container : Value)
    (members : List (Member Expr)) :
    (addMembers more ambient container members).Extends
      (addMembers less ambient container members) := by
  induction members generalizing container with
  | nil => exact .refl _
  | cons member rest ih =>
      exact (heval _ _).bind fun value => (Extends.refl _).bind fun next => ih next

theorem Container.evaluate_extends (ambient : Ambient) (body : Container Expr) :
    (body.evaluate more ambient).Extends (body.evaluate less ambient) := by
  unfold evaluate
  split
  · exact addMembers_extends heval ambient _ _
  · exact (heval _ _).bind fun first =>
      (Extends.refl _).bind fun next => addMembers_extends heval ambient next _
  · exact addMembers_extends heval ambient _ _

theorem Class.argumentValues_extends (ambient : Ambient) (arguments : List (Argument Expr)) :
    (argumentValues more ambient arguments).Extends (argumentValues less ambient arguments) := by
  induction arguments with
  | nil => exact .refl _
  | cons argument rest ih =>
      have hrest (values : List Value) := ih.bind fun more => Extends.refl (pure (values ++ more))
      refine (heval _ _).bind ?_
      intro value
      dsimp only
      split <;> exact (Extends.refl _).bind hrest

theorem Class.constructed_extends (ambient : Ambient) (cls : Class) (field : Field TypeExpr) :
    (constructed more ambient cls field).Extends (constructed less ambient cls field) := by
  unfold constructed
  split
  · exact (heval _ _).bind fun value => .refl _
  · exact .refl _

theorem Class.completed_extends (ambient : Ambient) (cls : Class) (provided : Record Value)
    (field : Field TypeExpr) :
    (completed more ambient cls provided field).Extends
      (completed less ambient cls provided field) := by
  unfold completed
  split
  · exact .refl _
  · exact (heval _ _).map some
  · exact .refl _

omit heval in
/-- Filling the fields of an instance keeps its outcome if the choice of each
value does. -/
theorem Class.build_extends (cls : Class) (classes : ClassTable)
    {moreChoice lessChoice : Field TypeExpr → Evaluation (Option Value)}
    (hchoice : ∀ field, (moreChoice field).Extends (lessChoice field)) (built : Record Value)
    (fields : List (Field TypeExpr)) :
    (cls.build classes moreChoice built fields).Extends
      (cls.build classes lessChoice built fields) := by
  induction fields generalizing built with
  | nil => exact .refl _
  | cons field rest ih =>
      refine (hchoice field).bind ?_
      intro chosen
      cases chosen with
      | some value => exact (Extends.refl _).bind fun _ => ih _
      | none => exact ih _

theorem Class.construct_extends (ambient : Ambient) (classes : ClassTable) (cls : Class)
    (arguments : List (Argument Expr)) :
    (construct more ambient classes cls arguments).Extends
      (construct less ambient classes cls arguments) :=
  (argumentValues_extends heval ambient arguments).bind fun _ =>
    (build_extends cls classes (constructed_extends heval _ cls) _ _).bind fun _ => .refl _

theorem Class.instantiate_extends (ambient : Ambient) (classes : ClassTable) (cls : Class)
    (body : Container Expr) :
    (instantiate more ambient classes cls body).Extends
      (instantiate less ambient classes cls body) := by
  refine (Container.evaluate_extends heval ambient body).bind ?_
  intro value
  cases value with
  | object provided =>
      exact (build_extends cls classes (completed_extends heval ambient cls provided) _ _).bind
        fun _ => .refl _
  | _ => exact .refl _

/-- One step of evaluation keeps its outcome if the evaluation of parts does. -/
theorem Scope.evalParts_extends (scope : Scope) (ambient : Ambient) (expr : Expr) :
    (scope.evalParts more ambient expr).Extends (scope.evalParts less ambient expr) := by
  cases expr with
  | ident | path | literal => exact .refl _
  | container span body => exact Container.evaluate_extends heval ambient body
  | call span className arguments =>
      refine (Extends.refl _).bind ?_
      intro cls
      split
      · exact Class.construct_extends heval ambient scope.classes cls arguments
      · exact .refl _
  | classInstance span className body =>
      refine (Extends.refl _).bind ?_
      intro cls
      split
      · exact .refl _
      · exact Class.instantiate_extends heval ambient scope.classes cls body
  | conditional span left right =>
      refine (heval left ambient).bind ?_
      intro value
      split
      · exact heval right ambient
      · exact .refl _

end

namespace Scope

/-- One level more of depth keeps all outcomes, by induction on the depth.
Outcomes therefore do not depend on the depth once there is one. -/
theorem eval_succ_extends (scope : Scope) (depth : Nat) :
    Evaluator.Extends (scope.eval (depth + 1)) (scope.eval depth) := by
  induction depth with
  | zero => exact fun _ _ => .exhausted _
  | succ depth ih =>
      exact fun expr ambient => (evalParts_extends ih scope ambient expr).within expr.span

/-- An outcome stays the same when more depth is allowed. -/
theorem eval_extends (scope : Scope) {depth more : Nat} (h : depth ≤ more) :
    Evaluator.Extends (scope.eval more) (scope.eval depth) := by
  induction h with
  | refl => exact fun _ _ => .refl _
  | step _ ih =>
      intro expr ambient outcome houtcome
      exact eval_succ_extends scope _ expr ambient outcome (ih expr ambient outcome houtcome)

end Scope

end ConfigNotation
