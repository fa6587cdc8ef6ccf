import ConfigNotation.Proofs.Eval.Depth
import ConfigNotation.Proofs.Syntax.AliasEnd
import ConfigNotation.Proofs.Value.Merge

/-!
The value of a container as a fold over its members. What the members before one make is
what that one sees, and what all of them make is the value; the first member that has no
value, or that spreads a value of another kind, gives the error.
-/

namespace ConfigNotation

open Grammar Evaluation

namespace Container

abbrev Part := Member Expr × Value

def itemsOf : Part → List Value
  | (.spread _, .array items) => items
  | (.element _, value) => [value]
  | _ => []

def entriesOf : Part → List (String × Value)
  | (.spread _, .object record) => record.entries
  | (.property key _, value) => [(key, value)]
  | _ => []

def built (kind : ContainerKind) (parts : List Part) : Value :=
  match kind with
  | .array => .array (parts.flatMap itemsOf)
  | _ => .object (.merged (parts.flatMap entriesOf))

inductive IsOfKind : ContainerKind → Value → Prop where
  | array (items : List Value) : IsOfKind .array (.array items)
  | object (record : Record Value) : IsOfKind .object (.object record)

def spreadFault (kind : ContainerKind) (value : Value) : EvalFault :=
  match kind with
  | .array => .spreadIntoArray value.typeName
  | _ => .spreadIntoObject value.typeName

/-- The surroundings of a member: `This` is the container so far, and so is
`Main` unless there is a container around this one. -/
def around (ambient : Ambient) (container : Value) : Ambient where
  main := some (ambient.main.getD container)
  this := some container
  parameters := ambient.parameters

theorem inside_eq_around (ambient : Ambient) (container : Value) :
    ambient.inside container = around ambient container := by
  obtain ⟨main, this, parameters⟩ := ambient
  cases main <;> rfl

section

variable (eval : Evaluator) (ambient : Ambient) (kind : ContainerKind)

/-- A member has a value behind some parts, and one that is spread is of the
kind of the container. -/
structure Joins (before : List Part) (member : Member Expr) (value : Value) : Prop where
  run : (eval member.value (around ambient (built kind before))).run = some (.ok value)
  spread : ∀ argument, member = .spread argument → IsOfKind kind value

/-- A member has no value behind some parts, or it spreads one of another
kind. -/
inductive Fails (before : List Part) (member : Member Expr) : EvalError → Prop where
  | member {error : EvalError}
      (hrun : (eval member.value (around ambient (built kind before))).run =
        some (.error error)) :
      Fails before member error
  | spread {argument : Expr} {value : Value} (hmember : member = .spread argument)
      (hrun : (eval member.value (around ambient (built kind before))).run = some (.ok value))
      (hother : ¬IsOfKind kind value) :
      Fails before member ((EvalError.raise (spreadFault kind value)).within argument.span)

/-- Each of some parts is added behind those before it. -/
def Folds (parts : List Part) : Prop :=
  ∀ before member value after, parts = before ++ (member, value) :: after →
    Joins eval ambient kind before member value

/-- Each of some parts is added behind those before it, and all of them behind
others. -/
def FoldsBehind (before parts : List Part) : Prop :=
  ∀ between member value after, parts = between ++ (member, value) :: after →
    Joins eval ambient kind (before ++ between) member value

end

variable {eval : Evaluator} {ambient : Ambient} {kind : ContainerKind}

theorem Folds.nil : Folds eval ambient kind [] :=
  fun _ _ _ _ hparts => nomatch List.append_eq_nil_iff.1 hparts.symm

theorem Folds.concat {parts : List Part} {member : Member Expr} {value : Value}
    (h : Folds eval ambient kind parts) (hlast : Joins eval ambient kind parts member value) :
    Folds eval ambient kind (parts ++ [(member, value)]) := by
  intro before other found after hparts
  rcases List.eq_nil_or_concat' after with rfl | ⟨rest, last, rfl⟩
  · obtain ⟨rfl, hsame⟩ := List.append_inj' hparts rfl
    cases hsame
    exact hlast
  · rw [← List.cons_append, ← List.append_assoc] at hparts
    obtain ⟨rfl, _⟩ := List.append_inj' hparts rfl
    exact h before other found rest rfl

theorem FoldsBehind.nil (before : List Part) : FoldsBehind eval ambient kind before [] :=
  fun _ _ _ _ hparts => nomatch List.append_eq_nil_iff.1 hparts.symm

/-- A part joins those in front of it, and the parts behind it join all of
these. -/
theorem foldsBehind_cons_iff {before parts : List Part} {member : Member Expr} {value : Value} :
    FoldsBehind eval ambient kind before ((member, value) :: parts) ↔
      Joins eval ambient kind before member value ∧
        FoldsBehind eval ambient kind (before ++ [(member, value)]) parts := by
  constructor
  · intro h
    constructor
    · have hfirst := h [] member value parts rfl
      rwa [List.append_nil] at hfirst
    · rintro between other found after rfl
      have hother := h ((member, value) :: between) other found after rfl
      rwa [List.append_cons] at hother
  · rintro ⟨hfirst, hrest⟩ (_ | ⟨_, between⟩) other found after hparts
    · cases hparts
      rwa [List.append_nil]
    · cases hparts
      rw [List.append_cons]
      exact hrest between other found after rfl

theorem Folds.append_iff {before parts : List Part} (h : Folds eval ambient kind before) :
    Folds eval ambient kind (before ++ parts) ↔ FoldsBehind eval ambient kind before parts := by
  constructor
  · rintro hfolds between member value after rfl
    exact hfolds (before ++ between) member value after (List.append_assoc ..).symm
  · intro hbehind
    induction parts generalizing before with
    | nil => rwa [List.append_nil]
    | cons part parts ih =>
        obtain ⟨hfirst, hrest⟩ := foldsBehind_cons_iff.1 hbehind
        rw [List.append_cons]
        exact ih (h.concat hfirst) hrest

def Suits (kind : ContainerKind) (member : Member Expr) : Prop :=
  memberKind member = .unknown ∨ memberKind member = kind

/-- Adding a part to what the parts before it make comes to what all of them
make. -/
theorem add_built (hkind : kind ≠ .unknown) {member : Member Expr} (hsuits : Suits kind member)
    {value : Value} (hspread : ∀ argument, member = .spread argument → IsOfKind kind value)
    (parts : List Part) :
    add (built kind parts) member value = pure (built kind (parts ++ [(member, value)])) := by
  cases kind with
  | unknown => exact absurd rfl hkind
  | array =>
      simp only [built, List.flatMap_append, List.flatMap_singleton]
      cases member with
      | property key expr => rcases hsuits with h | h <;> cases h
      | element expr => rfl
      | spread argument =>
          cases hspread argument rfl
          rfl
  | object =>
      simp only [built, List.flatMap_append, List.flatMap_singleton]
      cases member with
      | property key expr => exact congrArg (pure <| Value.object ·) (Record.insert_merged _ _ _)
      | element expr => rcases hsuits with h | h <;> cases h
      | spread argument =>
          cases hspread argument rfl
          exact congrArg (pure <| Value.object ·) (Record.insertAll_merged _ _)

theorem add_built_of_other (hkind : kind ≠ .unknown) (argument : Expr) {value : Value}
    (hother : ¬IsOfKind kind value) (parts : List Part) :
    add (built kind parts) (.spread argument) value =
      (Evaluation.fail (spreadFault kind value)).within argument.span := by
  cases kind with
  | unknown => exact absurd rfl hkind
  | array =>
      cases value with
      | array items => exact absurd (.array items) hother
      | _ => rfl
  | object =>
      cases value with
      | object record => exact absurd (.object record) hother
      | _ => rfl

/-- A part with a value is added, or it is a spread of another kind and fails. -/
theorem add_cases (hkind : kind ≠ .unknown) {member : Member Expr} (hsuits : Suits kind member)
    (value : Value) (parts : List Part) :
    ((∀ argument, member = .spread argument → IsOfKind kind value) ∧
      add (built kind parts) member value = pure (built kind (parts ++ [(member, value)]))) ∨
    ∃ argument, member = .spread argument ∧ ¬IsOfKind kind value ∧
      add (built kind parts) member value =
        (Evaluation.fail (spreadFault kind value)).within argument.span := by
  by_cases hspread : ∀ argument, member = .spread argument → IsOfKind kind value
  · exact .inl ⟨hspread, add_built hkind hsuits hspread parts⟩
  · rw [not_forall] at hspread
    obtain ⟨argument, hspread⟩ := hspread
    obtain ⟨rfl, hother⟩ := Classical.not_imp.1 hspread
    exact .inr ⟨argument, rfl, hother, add_built_of_other hkind argument hother parts⟩

/-- Members are added successfully exactly if each has a value that joins those
in front, and the result is built from all of them. -/
theorem addMembers_built_eq_ok_iff (hkind : kind ≠ .unknown) {members : List (Member Expr)}
    (hsuits : ∀ member ∈ members, Suits kind member) {before : List Part} {result : Value} :
    (addMembers eval ambient (built kind before) members).run = some (.ok result) ↔
      ∃ parts : List Part, parts.map (·.1) = members ∧
        FoldsBehind eval ambient kind before parts ∧ result = built kind (before ++ parts) := by
  induction members generalizing before with
  | nil =>
      rw [addMembers, run_pure_eq_ok]
      constructor
      · rintro rfl
        exact ⟨[], rfl, .nil before, by rw [List.append_nil]⟩
      · rintro ⟨parts, hparts, -, rfl⟩
        rw [List.map_eq_nil_iff.1 hparts, List.append_nil]
  | cons member rest ih =>
      obtain ⟨hmember, hrest⟩ := List.forall_mem_cons.1 hsuits
      rw [addMembers, run_bind_eq_ok, inside_eq_around]
      constructor
      · rintro ⟨value, hvalue, hadd⟩
        rcases add_cases hkind hmember value before with ⟨hspread, heq⟩ | ⟨_, _, _, heq⟩
        · rw [heq, pure_bind, ih hrest] at hadd
          obtain ⟨parts, rfl, hfolds, hresult⟩ := hadd
          rw [← List.append_cons] at hresult
          exact ⟨(member, value) :: parts, rfl,
            foldsBehind_cons_iff.2 ⟨⟨hvalue, hspread⟩, hfolds⟩, hresult⟩
        · rw [heq] at hadd
          cases hadd
      · rintro ⟨_ | ⟨⟨_, value⟩, parts⟩, hparts, hfolds, hresult⟩
        · cases hparts
        · cases hparts
          obtain ⟨hadds, hbehind⟩ := foldsBehind_cons_iff.1 hfolds
          refine ⟨value, hadds.run, ?_⟩
          rw [add_built hkind hmember hadds.spread, pure_bind, ih hrest]
          rw [List.append_cons] at hresult
          exact ⟨parts, rfl, hbehind, hresult⟩

/-- The same from the parts of a container that was built so far, which make one
fold with the new ones. -/
theorem addMembers_eq_ok_iff (hkind : kind ≠ .unknown) {members : List (Member Expr)}
    (hsuits : ∀ member ∈ members, Suits kind member) {before : List Part}
    (hbefore : Folds eval ambient kind before) {result : Value} :
    (addMembers eval ambient (built kind before) members).run = some (.ok result) ↔
      ∃ parts : List Part, parts.map (·.1) = members ∧ Folds eval ambient kind (before ++ parts) ∧
        result = built kind (before ++ parts) := by
  simp only [addMembers_built_eq_ok_iff hkind hsuits, hbefore.append_iff]

/-- Adding members fails exactly at the first member that fails behind parts
that fold, with its error. -/
theorem addMembers_eq_error_iff (hkind : kind ≠ .unknown) {members : List (Member Expr)}
    (hsuits : ∀ member ∈ members, Suits kind member) {before : List Part}
    (hbefore : Folds eval ambient kind before) {error : EvalError} :
    (addMembers eval ambient (built kind before) members).run = some (.error error) ↔
      ∃ (parts : List Part) (member : Member Expr) (rest : List (Member Expr)),
        members = parts.map (·.1) ++ member :: rest ∧ Folds eval ambient kind (before ++ parts) ∧
        Fails eval ambient kind (before ++ parts) member error := by
  induction members generalizing before with
  | nil =>
      refine iff_of_false nofun ?_
      rintro ⟨parts, member, rest, hparts, -⟩
      exact nomatch List.append_eq_nil_iff.1 hparts.symm
  | cons member rest ih =>
      obtain ⟨hmember, hrest⟩ := List.forall_mem_cons.1 hsuits
      rw [addMembers, run_bind_eq_error, inside_eq_around]
      constructor
      · rintro (herror | ⟨value, hvalue, hadd⟩)
        · refine ⟨[], member, rest, rfl, ?_⟩
          rw [List.append_nil]
          exact ⟨hbefore, .member herror⟩
        · rcases add_cases hkind hmember value before with ⟨hspread, heq⟩ | ⟨_, hsame, hother, heq⟩
          · rw [heq, pure_bind, ih hrest (hbefore.concat ⟨hvalue, hspread⟩)] at hadd
            obtain ⟨parts, failing, after, rfl, hfolds, hfails⟩ := hadd
            rw [List.append_assoc] at hfolds hfails
            exact ⟨(member, value) :: parts, failing, after, rfl, hfolds, hfails⟩
          · rw [heq] at hadd
            cases hadd
            refine ⟨[], member, rest, rfl, ?_⟩
            rw [List.append_nil]
            exact ⟨hbefore, .spread hsame hvalue hother⟩
      · rintro ⟨_ | ⟨⟨_, value⟩, parts⟩, failing, after, hparts, hfolds, hfails⟩
        · cases hparts
          rw [List.append_nil] at hfails
          cases hfails with
          | member hrun => exact .inl hrun
          | spread hsame hrun hother =>
              subst hsame
              refine .inr ⟨_, hrun, ?_⟩
              rw [add_built_of_other hkind _ hother]
              rfl
        · cases hparts
          have hadds := hfolds before _ value parts rfl
          refine .inr ⟨value, hadds.run, ?_⟩
          rw [add_built hkind hmember hadds.spread, pure_bind, ih hrest (hbefore.concat hadds)]
          refine ⟨parts, failing, after, rfl, ?_⟩
          rw [List.append_assoc]
          exact ⟨hfolds, hfails⟩

/-- A container whose kind is known starts empty. -/
theorem evaluate_eq_addMembers {body : Container Expr} (hkind : body.kind ≠ .unknown) :
    body.evaluate eval ambient = addMembers eval ambient (built body.kind []) body.members := by
  obtain ⟨kind, members⟩ := body
  cases kind with
  | unknown => exact absurd rfl hkind
  | array => rfl
  | object => rfl

end Container

open Container

/-- The members of a container that the grammar derives suit its kind, so none
of them is left out when it is built. -/
theorem Grammar.IsContainer.suits {workspace : Workspace} {tokens : List Token}
    {body : Container Expr} (h : IsContainer workspace tokens body) :
    ∀ member ∈ body.members, Suits body.kind member := by
  cases h with
  | intro _ _ hkind _ => exact hkind.same

/-- A container that is read as an object or an array evaluates as the fold over
its members, as an expression by itself and as the body of an instance. It has a
value exactly if the members have values that fold, and fails exactly with the
error of the first member that does not. -/
theorem container_follows_fold {workspace : Workspace} {cursor : Cursor}
    {parsed : Parsed (Container Expr) cursor}
    (hparsed : Parser.container workspace cursor = .ok parsed)
    (hkind : parsed.value.kind ≠ .unknown) (scope : Scope) (depth : Nat) (ambient : Ambient) :
    (∀ span, scope.eval (depth + 1) (.container span parsed.value) ambient =
      (parsed.value.evaluate (scope.eval depth) ambient).within span) ∧
    (∀ value, (parsed.value.evaluate (scope.eval depth) ambient).run = some (.ok value) ↔
      ∃ parts : List Part, parts.map (·.1) = parsed.value.members ∧
        Folds (scope.eval depth) ambient parsed.value.kind parts ∧
        value = built parsed.value.kind parts) ∧
    ∀ error, (parsed.value.evaluate (scope.eval depth) ambient).run = some (.error error) ↔
      ∃ (parts : List Part) (member : Member Expr) (rest : List (Member Expr)),
        parsed.value.members = parts.map (·.1) ++ member :: rest ∧
        Folds (scope.eval depth) ambient parsed.value.kind parts ∧
        Fails (scope.eval depth) ambient parsed.value.kind parts member error := by
  obtain ⟨_, _, hcontainer⟩ := container_obeys hparsed
  have hsuits := hcontainer.suits
  refine ⟨fun span => rfl, fun value => ?_, fun error => ?_⟩
  · rw [evaluate_eq_addMembers hkind, addMembers_eq_ok_iff hkind hsuits .nil]
    rfl
  · rw [evaluate_eq_addMembers hkind, addMembers_eq_error_iff hkind hsuits .nil]
    rfl

/-- The tokens of `[@a => x; ...y; @a => This.a;]`. -/
def overwriting : List Token :=
  [⟨.leftBracket, "[", ⟨0, 1⟩, ⟨1, 1⟩⟩, ⟨.assocKey, "@a", ⟨1, 3⟩, ⟨1, 2⟩⟩,
    ⟨.arrow, "=>", ⟨4, 6⟩, ⟨1, 5⟩⟩, ⟨.ident, "x", ⟨7, 8⟩, ⟨1, 8⟩⟩,
    ⟨.semicolon, ";", ⟨8, 9⟩, ⟨1, 9⟩⟩, ⟨.spread, "...", ⟨10, 13⟩, ⟨1, 11⟩⟩,
    ⟨.ident, "y", ⟨13, 14⟩, ⟨1, 14⟩⟩, ⟨.semicolon, ";", ⟨14, 15⟩, ⟨1, 15⟩⟩,
    ⟨.assocKey, "@a", ⟨16, 18⟩, ⟨1, 17⟩⟩, ⟨.arrow, "=>", ⟨19, 21⟩, ⟨1, 20⟩⟩,
    ⟨.path, "This.a", ⟨22, 28⟩, ⟨1, 23⟩⟩, ⟨.semicolon, ";", ⟨28, 29⟩, ⟨1, 29⟩⟩,
    ⟨.rightBracket, "]", ⟨29, 30⟩, ⟨1, 30⟩⟩]

theorem container_follows_fold_overwriting :
    ∃ parsed, Parser.container noFiles ⟨overwriting, .empty⟩ = .ok parsed ∧
      parsed.value.kind = .object ∧
      ∀ (scope : Scope) (depth : Nat) (ambient : Ambient) (value : Value),
        (parsed.value.evaluate (scope.eval depth) ambient).run = some (.ok value) ↔
          ∃ parts : List Part, parts.map (·.1) = parsed.value.members ∧
            Folds (scope.eval depth) ambient .object parts ∧ value = built .object parts := by
  have hseen : (Parser.container noFiles ⟨overwriting, .empty⟩).toOption.map (·.value.kind) =
      some .object := by decide +kernel
  cases hparsed : Parser.container noFiles ⟨overwriting, .empty⟩ with
  | error error =>
      rw [hparsed] at hseen
      cases hseen
  | ok parsed =>
      rw [hparsed] at hseen
      have hkind : parsed.value.kind = .object := Option.some.inj hseen
      refine ⟨parsed, rfl, hkind, fun scope depth ambient value => ?_⟩
      have hfold := container_follows_fold hparsed (by rw [hkind]; nofun) scope depth ambient
      rw [← hkind]
      exact hfold.2.1 value

end ConfigNotation
