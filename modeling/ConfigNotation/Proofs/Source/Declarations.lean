import ConfigNotation.Proofs.Eval.Building
import ConfigNotation.Proofs.Eval.Conformance
import ConfigNotation.Proofs.Eval.Loading
import ConfigNotation.Proofs.Source.Reading

/-!
The declarations that the name for the empty array needs: what they are read as, and
that they bind the name to a record with the empty array in it.
-/

namespace ConfigNotation

open ConfigNotation.Parser

/-- The field of the class: its default is what the rest parameter is bound
to. -/
def emptyListField (name field : Span) : Field TypeExpr :=
  ⟨"items", .any, false, some (.ident name "items"), field⟩

/-- The class whose instances hold the arguments that they are built from. -/
def emptyListDecl (name field span : Span) : ClassDecl :=
  ⟨"EmptyList", [⟨"items", true⟩], none, [], [emptyListField name field], span⟩

/-- The use that builds an instance without arguments. -/
def emptyUse (call span : Span) : Use := ⟨.call call "EmptyList" [], .name "empty", span⟩

variable {workspace : Workspace} {cursor : Cursor} {rest : List Tag}

theorem Reads.thenRead {α β : Type} (parsed : Parsed α cursor)
    (read : (cursor : Cursor) → Except ParseError (Parsed β cursor)) {property : β → Prop}
    (h : Reads (read parsed.after) rest property) :
    Reads (parsed.thenRead read) rest property := by
  obtain ⟨next, hread, hrest, hproperty⟩ := h
  refine ⟨⟨next.value, next.after, Nat.lt_trans next.shorter parsed.shorter⟩, ?_, hrest, hproperty⟩
  rw [Parsed.thenRead, hread]
  rfl

theorem expect_reads {kind : TokenKind} {text : String} (h : cursor.tags = (kind, text) :: rest)
    (hkind : kind ≠ .endOfInput) :
    Reads (cursor.expect kind) rest fun token => token.text = text := by
  obtain ⟨parsed, hexpect, _, htext, hrest⟩ := Cursor.expect_of_tags h hkind
  exact ⟨parsed, hexpect, hrest, htext⟩

theorem expectAs_reads {kind : TokenKind} {text : String} (h : cursor.tags = (kind, text) :: rest)
    (hkind : kind ≠ .endOfInput) (expected : String) :
    Reads (cursor.expectAs kind expected) rest fun token => token.text = text := by
  obtain ⟨parsed, hexpect, _, htext, hrest⟩ := Cursor.expectAs_of_tags h hkind expected
  exact ⟨parsed, hexpect, hrest, htext⟩

/-- One rest parameter in parentheses. -/
theorem parameters_reads {name : String} (htags : cursor.tags = (.leftParen, "(") ::
    (.spread, "...") :: (.ident, name) :: (.rightParen, ")") :: rest) :
    ∃ found, parameters cursor = .ok found ∧ found.value = [⟨name, true⟩] ∧
      found.after.tags = rest := by
  obtain ⟨⟨opening, afterOpening, hopening⟩, htake, _, _, hopeningTags⟩ :=
    Cursor.take?_of_tags htags (by simp)
  dsimp only at hopeningTags
  have hfirst : afterOpening.take? .rightParen = none :=
    Cursor.take?_eq_none hopeningTags (by simp)
  obtain ⟨⟨isRest, afterMark, hmark⟩, heat, rfl, hmarkTags⟩ :=
    Cursor.eat_of_tags hopeningTags (by simp)
  obtain ⟨⟨token, afterName, hname⟩, hexpect, hnameTags, rfl⟩ :=
    expectAs_reads hmarkTags (by simp) "a parameter name"
  dsimp only at hmark hname hnameTags hexpect
  have hcomma : afterName.eat .comma = .here false afterName :=
    Cursor.eat_eq_here hnameTags (by simp)
  have hkind : afterName.kind = .rightParen := Cursor.kind_of_tags hnameTags
  obtain ⟨⟨closing, after, hafter⟩, hclosing, _, _, hrest⟩ :=
    Cursor.take?_of_tags hnameTags (by simp)
  dsimp only at hafter hrest
  have hend : parametersUpToEnd (some ⟨token.text, true⟩) afterName = .ok ⟨[], after, hafter⟩ := by
    rw [parametersUpToEnd, hclosing]
  have hlist : parametersUpToEnd none afterOpening =
      .ok ⟨[⟨token.text, true⟩], after, by omega⟩ := by
    rw [parametersUpToEnd, hfirst]
    dsimp only [Option.filter_none]
    rw [heat]
    dsimp only
    rw [hexpect]
    dsimp only [bind, Except.bind]
    rw [hcomma]
    dsimp only [Found.here]
    rw [hkind, hend]
    rfl
  refine ⟨⟨[⟨token.text, true⟩], after, by omega⟩, ?_, rfl, hrest⟩
  rw [parameters, htake]
  simp only [Parsed.thenRead, hlist, bind, Except.bind]
  rfl

/-- A name by itself, in front of a token that does not go on with it. -/
theorem operand_name {name : String} {kind : TokenKind} {text : String}
    (hparen : kind ≠ .leftParen) (hbracket : kind ≠ .leftBracket)
    (htags : cursor.tags = (.ident, name) :: (kind, text) :: rest) :
    Reads (operand workspace cursor) ((kind, text) :: rest) fun expr =>
      ∃ span, expr = .ident span name := by
  obtain ⟨⟨token, after, hafter⟩, hnext, hsame, htext, hrest⟩ :=
    Cursor.next?_of_tags htags (by simp)
  dsimp only at hsame htext
  have hkind : after.kind = kind := Cursor.kind_of_tags hrest
  refine ⟨⟨.ident token.span token.text, after, hafter⟩, ?_, hrest, token.span, by rw [htext]⟩
  rw [operand, hnext]
  dsimp only
  rw [hsame]
  dsimp only
  rw [hkind]
  split
  · exact absurd rfl hparen
  · exact absurd rfl hbracket
  · rfl

/-- A call without arguments. -/
theorem operand_call {name : String} (htags : cursor.tags =
    (.ident, name) :: (.leftParen, "(") :: (.rightParen, ")") :: rest) :
    Reads (operand workspace cursor) rest fun expr => ∃ span, expr = .call span name [] := by
  obtain ⟨⟨token, after, hafter⟩, hnext, hsame, htext, hnameTags⟩ :=
    Cursor.next?_of_tags htags (by simp)
  dsimp only at hsame htext hnameTags
  have hkind : after.kind = .leftParen := Cursor.kind_of_tags hnameTags
  obtain ⟨⟨opening, afterOpening, hopening⟩, hexpect, _, _, hopeningTags⟩ :=
    Cursor.expect_of_tags hnameTags (by simp)
  obtain ⟨⟨closing, afterCall, hcall⟩, htake, _, _, hrest⟩ :=
    Cursor.take?_of_tags hopeningTags (by simp)
  dsimp only at hopening hcall htake
  have harguments : callArguments workspace after = .ok ⟨[], afterCall, by omega⟩ := by
    rw [callArguments, hexpect]
    simp only [bind, Except.bind, argumentsUpToEnd, htake]
    rfl
  refine ⟨⟨.call (token.span.merge afterCall.previous) token.text [], afterCall, by omega⟩, ?_,
    hrest, _, by rw [htext]⟩
  rw [operand, hnext]
  dsimp only
  rw [hsame]
  dsimp only
  rw [hkind]
  dsimp only
  rw [harguments]
  rfl

/-- A field without a type whose default is a name. -/
theorem field_reads (workspace : Workspace) (key : String) {name : String} (htags : cursor.tags =
    (.assocKey, "@" ++ key) :: (.arrow, "=>") :: (.ident, name) :: (.semicolon, ";") :: rest) :
    Reads (field workspace false cursor) rest fun field => ∃ first second,
      field = ⟨key, .any, false, some (.ident first name), second⟩ := by
  obtain ⟨⟨token, afterKey, hkey⟩, hexpect, hkeyTags, htext⟩ :=
    expectAs_reads htags (by simp) "\"@name\""
  dsimp only at hkeyTags htext hkey
  have hquestion : afterKey.eat .question = .here false afterKey :=
    Cursor.eat_eq_here hkeyTags (by simp)
  have hcolon : afterKey.take? .colon = none := Cursor.take?_eq_none hkeyTags (by simp)
  obtain ⟨⟨arrow, afterArrow, harrow⟩, htake, _, _, harrowTags⟩ :=
    Cursor.take?_of_tags hkeyTags (by simp)
  obtain ⟨⟨value, afterValue, hvalue⟩, hexpr, hvalueTags, span, rfl⟩ :=
    expr_reads (operand_name (by simp) (by simp) harrowTags)
  obtain ⟨⟨semicolon, after, hafter⟩, hsemicolon, hrest, _⟩ := expect_reads hvalueTags (by simp)
  dsimp only at harrow hvalue hafter hexpr hsemicolon
  have hname : keyName token = key := by
    rw [keyName, htext]
    simp [Text.dropLeading]
  have htype : fieldType workspace afterKey = .ok (.here .any afterKey) := by
    rw [fieldType, hcolon]
  have hdefault : fieldDefault workspace false afterKey =
      .ok ⟨some (.ident span name), afterValue, by omega⟩ := by
    have hread : (⟨arrow, afterArrow, harrow⟩ : Parsed Token afterKey).thenRead (expr workspace) =
        .ok ⟨.ident span name, afterValue, by omega⟩ := by
      rw [Parsed.thenRead, hexpr]
      rfl
    rw [fieldDefault, htake]
    change ((⟨arrow, afterArrow, harrow⟩ : Parsed Token afterKey).thenRead (expr workspace) >>=
      fun value => pure (value.map some).found) = _
    rw [hread]
    rfl
  refine ⟨⟨⟨key, .any, false, some (.ident span name),
    cursor.current.span.merge after.previous⟩, after, by omega⟩, ?_, hrest, _, _, rfl⟩
  rw [field, hexpect]
  dsimp only [bind, Except.bind]
  rw [hquestion]
  dsimp only [Found.here]
  rw [htype]
  dsimp only [Found.here]
  rw [hdefault]
  dsimp only
  rw [hsemicolon, hname]
  rfl

theorem classDecl_reads (workspace : Workspace) (htags : cursor.tags =
    (.classWord, "class") :: (.ident, "EmptyList") :: (.leftParen, "(") :: (.spread, "...") ::
    (.ident, "items") :: (.rightParen, ")") :: (.leftBracket, "[") :: (.assocKey, "@items") ::
    (.arrow, "=>") :: (.ident, "items") :: (.semicolon, ";") :: (.rightBracket, "]") ::
    (.semicolon, ";") :: rest) :
    Reads (classDecl workspace cursor) rest fun decl => ∃ name field span,
      decl = emptyListDecl name field span := by
  obtain ⟨⟨mark, afterMark, hmark⟩, hclass, hmarkTags, _⟩ := expect_reads htags (by simp)
  obtain ⟨⟨name, afterName, hname⟩, hident, hnameTags, htext⟩ :=
    expectAs_reads hmarkTags (by simp) "a class name"
  obtain ⟨⟨_, afterParameters, hparameters⟩, hlist, rfl, hparameterTags⟩ :=
    parameters_reads hnameTags
  dsimp only at hmark hname htext hparameterTags hident hlist hparameters
  have hextends : afterParameters.take? .extendsWord = none :=
    Cursor.take?_eq_none hparameterTags (by simp)
  have hincludes : afterParameters.take? .includesWord = none :=
    Cursor.take?_eq_none hparameterTags (by simp)
  obtain ⟨⟨opening, afterOpening, hopening⟩, hbracket, hopeningTags, _⟩ :=
    expect_reads hparameterTags (by simp)
  dsimp only at hopening hopeningTags
  have hnotClosed : afterOpening.take? .rightBracket = none :=
    Cursor.take?_eq_none hopeningTags (by simp)
  obtain ⟨⟨_, afterField, hfield⟩, hfieldRead, hfieldTags, first, second, rfl⟩ :=
    field_reads workspace "items" hopeningTags
  obtain ⟨⟨closing, afterFields, hclosing⟩, hclosed, _, _, hclosingTags⟩ :=
    Cursor.take?_of_tags hfieldTags (by simp)
  obtain ⟨⟨semicolon, after, hafter⟩, hsemicolon, hrest, _⟩ := expect_reads hclosingTags (by simp)
  dsimp only at hfield hclosing hafter hclosed hsemicolon
  have hlast : classFields workspace afterField = .ok ⟨[], afterFields, hclosing⟩ := by
    rw [classFields, hclosed]
  have hfields : classFields workspace afterOpening =
      .ok ⟨[emptyListField first second], afterFields, by omega⟩ := by
    rw [classFields, hnotClosed]
    simp only [hfieldRead, inContext, Except.mapError, bind, Except.bind, hlast]
    rfl
  refine ⟨⟨emptyListDecl first second (cursor.current.span.merge after.previous), after,
    by omega⟩, ?_, hrest, _, _, _, rfl⟩
  simp only [classDecl, hclass, hident, hlist, baseClass, hextends, mixins, hincludes, Found.here,
    hbracket, hfields, hsemicolon, inContext, Except.mapError, bind, Except.bind, htext]
  rfl

/-- A name as the left side of a binding. -/
theorem binding_reads {name : String} (htags : cursor.tags = (.ident, name) :: rest) :
    Reads (binding cursor) rest fun bound => bound = .name name := by
  have hkind : cursor.kind = .ident := Cursor.kind_of_tags htags
  obtain ⟨⟨token, after, hafter⟩, hexpect, hrest, rfl⟩ :=
    expectAs_reads htags (by simp) "a binding name"
  refine ⟨⟨.name token.text, after, hafter⟩, ?_, hrest, rfl⟩
  rw [binding, hkind]
  dsimp only
  rw [hexpect]
  rfl

theorem useStatement_reads (workspace : Workspace) (htags : cursor.tags =
    (.useWord, "use") :: (.ident, "EmptyList") :: (.leftParen, "(") :: (.rightParen, ")") ::
    (.asWord, "as") :: (.ident, "empty") :: (.semicolon, ";") :: rest) :
    Reads (useStatement workspace cursor) rest fun use => ∃ call span,
      use = emptyUse call span := by
  obtain ⟨mark, huse, hmarkTags, _⟩ := expect_reads htags (by simp)
  have hkind : mark.after.kind = .ident := Cursor.kind_of_tags hmarkTags
  have hused : usedValue workspace mark.after = operand workspace mark.after := if_pos hkind
  obtain ⟨value, hvalue, hvalueTags, call, hcall⟩ :=
    Reads.thenRead mark (usedValue workspace) (hused ▸ operand_call hmarkTags)
  obtain ⟨asWord, has, hasTags, _⟩ :=
    Reads.thenRead value (·.expect .asWord) (expect_reads hvalueTags (by simp))
  obtain ⟨bound, hbinding, hboundTags, hbound⟩ :=
    Reads.thenRead asWord binding (binding_reads hasTags)
  obtain ⟨finish, hsemicolon, hrest, _⟩ :=
    Reads.thenRead bound (·.expect .semicolon) (expect_reads hboundTags (by simp))
  have hpattern : ¬(mark.after.kind = .leftBracket ∧ opensPattern mark.after.nextKind) := by
    rw [hkind]
    exact fun h => absurd h.1 (by simp)
  refine ⟨finish.map fun _ => ⟨value.value, bound.value,
    cursor.current.span.merge finish.after.previous⟩, ?_, hrest, call,
    cursor.current.span.merge finish.after.previous, ?_⟩
  · simp only [useStatement, inContext, huse, bind, Except.bind, hpattern, if_false, hvalue, has,
      hbinding, hsemicolon]
    rfl
  · rw [emptyUse, ← hcall, ← hbound]
    rfl

/-- The class as it is known behind its declaration. -/
def emptyListClass (name field : Span) : Class :=
  ⟨"EmptyList", [⟨"items", true⟩], ⟨[("items", emptyListField name field)]⟩⟩

/-- What the use is evaluated in: the class alone. -/
def emptyListScope (name field : Span) (files : FileSystem) : Scope :=
  ⟨⟨[("EmptyList", emptyListClass name field)]⟩, .empty, files⟩

/-- What everything behind the use is evaluated in. -/
def emptyScope (name field : Span) (files : FileSystem) : Scope :=
  { emptyListScope name field files with
    bindings := Record.empty.insert "empty" (.object ⟨[("items", .array [])]⟩) }

/-- The value of a parameter that no binding of the module hides. -/
theorem Scope.eval_parameter {scope : Scope} {ambient : Ambient} {name : String} {value : Value}
    (span : Span) (hmain : name ≠ "Main") (hthis : name ≠ "This")
    (hbindings : scope.bindings.get? name = none)
    (hparameters : ambient.parameters.get? name = some value) :
    scope.eval 1 (.ident span name) ambient = pure value := by
  have hroot : scope.root? ambient name = some value := by
    simp [root?, hmain, hthis, hbindings, hparameters]
  have hnamed : scope.named ambient name = pure value := by
    simp [named, root, hmain, hthis, hroot]
  rw [eval, evalParts, hnamed]
  rfl

/-- The call builds a record with the empty array in it. -/
theorem yields_emptyCall (name field call : Span) (files : FileSystem) :
    Expr.Yields (emptyListScope name field files) (.call call "EmptyList" [])
      (.object ⟨[("items", .array [])]⟩) := by
  refine .of_parts ⟨1, fun ambient => ?_⟩
  let scope := emptyListScope name field files
  let cls := emptyListClass name field
  let inner : Ambient :=
    { ambient with parameters := ambient.parameters.insert "items" (.array []) }
  have hitems : inner.parameters.get? "items" = some (.array []) := by
    simp [inner, Record.get?_insert]
  have hdefault : scope.eval 1 (.ident name "items") inner = pure (.array []) :=
    scope.eval_parameter name (by simp) (by simp) rfl hitems
  have hchosen : cls.constructed (scope.eval 1) inner (emptyListField name field) =
      pure (some (.array [])) := by
    simp only [Class.constructed, emptyListField, hdefault]
    rfl
  have hbuilt : cls.build scope.classes (Class.constructed (scope.eval 1) inner cls) .empty
      [emptyListField name field] = pure ⟨[("items", .array [])]⟩ :=
    Class.build_chosen hchosen (Value.check_any _ _ _)
  have hconstruct : cls.construct (scope.eval 1) ambient scope.classes [] =
      pure (.object ⟨[("items", .array [])]⟩) := by
    rw [Class.construct, Class.argumentValues, pure_bind]
    exact congrArg (· >>= fun built => pure (Value.object built)) hbuilt
  exact congrArg ExceptT.run hconstruct

theorem emptyScope_bindsEmptyArray (name field : Span) (files : FileSystem) :
    (emptyScope name field files).BindsEmptyArray := rfl

end ConfigNotation
