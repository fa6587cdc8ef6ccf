import ConfigNotation.Eval.Session
import ConfigNotation.Proofs.Eval.Depth
import ConfigNotation.Proofs.Source.Words
import ConfigNotation.Proofs.Syntax.Tags
import ConfigNotation.Proofs.Value.Merge

/-!
The words of a value are read as an expression that has this value again, wherever
the name for the empty array is bound if the value needs it.
-/

namespace ConfigNotation

namespace Value

mutual

/-- What a value is when it is read from its module: zero has no sign, and a
buffer is the string of its text. -/
def readBack : Value → Value
  | number value => number value.readBack
  | buffer value => string value.text
  | array items => array (itemsReadBack items)
  | object ⟨entries⟩ => object ⟨entriesReadBack entries⟩
  | value => value

def itemsReadBack : List Value → List Value
  | [] => []
  | item :: rest => item.readBack :: itemsReadBack rest

def entriesReadBack : List (String × Value) → List (String × Value)
  | [] => []
  | (key, item) :: rest => (key, item.readBack) :: entriesReadBack rest

end

end Value

/-- The name for the empty array is bound to what its declarations say. -/
def Scope.BindsEmptyArray (scope : Scope) : Prop :=
  scope.bindings.get? "empty" = some (.object ⟨[("items", .array [])]⟩)

/-- An expression has a value in a scope, whatever surrounds it. -/
def Expr.Yields (scope : Scope) (expr : Expr) (value : Value) : Prop :=
  ∃ depth, ∀ ambient, (scope.eval depth expr ambient).run = some (.ok value)

/-- Members that are added to a container give a value, whatever surrounds it. -/
def Container.Adds (scope : Scope) (built : Value) (members : List (Member Expr))
    (value : Value) : Prop :=
  ∃ depth, ∀ ambient, (addMembers (scope.eval depth) ambient built members).run =
    some (.ok value)

theorem Container.Adds.nil (scope : Scope) (built : Value) : Adds scope built [] built :=
  ⟨0, fun _ => rfl⟩

/-- A member with a value is added in front of others that are added to what
comes out. Values do not depend on the container that is built around them. -/
theorem Container.Adds.cons {scope : Scope} {built next value result : Value}
    {member : Member Expr} {members : List (Member Expr)}
    (hvalue : member.value.Yields scope value)
    (hadd : (add built member value).run = some (.ok next))
    (hmembers : Adds scope next members result) :
    Adds scope built (member :: members) result := by
  obtain ⟨first, hfirst⟩ := hvalue
  obtain ⟨second, hsecond⟩ := hmembers
  refine ⟨max first second, ?_⟩
  intro ambient
  have hone := scope.eval_extends (Nat.le_max_left first second) member.value
    (ambient.inside built) _ (hfirst _)
  have hrest := addMembers_extends (scope.eval_extends (Nat.le_max_right first second)) ambient
    next members _ (hsecond ambient)
  rw [addMembers, Evaluation.run_bind_eq_some]
  refine .inr ⟨value, hone, ?_⟩
  rw [Evaluation.run_bind_eq_some]
  exact .inr ⟨next, hadd, hrest⟩

/-- An expression has a value if one step of evaluation gives it at some depth,
whatever surrounds it. -/
theorem Expr.Yields.of_parts {scope : Scope} {expr : Expr} {value : Value}
    (h : ∃ depth, ∀ ambient, (scope.evalParts (scope.eval depth) ambient expr).run =
      some (.ok value)) :
    expr.Yields scope value := by
  obtain ⟨depth, hparts⟩ := h
  refine ⟨depth + 1, ?_⟩
  intro ambient
  rw [Scope.eval, Evaluation.within, ExceptT.run_mk, hparts]
  rfl

theorem Expr.yields_literal {scope : Scope} (span : Span) {literal : Literal} {value : Value}
    (h : ∀ ambient, scope.literal ambient literal = pure value) :
    (Expr.literal span literal).Yields scope value :=
  .of_parts ⟨0, fun ambient => by rw [Scope.evalParts, h]; rfl⟩

theorem Expr.yields_emptyArray {scope : Scope} (span : Span) (h : scope.BindsEmptyArray) :
    (Expr.path span ["empty", "items"]).Yields scope (.array []) := by
  refine .of_parts ⟨0, fun ambient => ?_⟩
  have hbinding : scope.bindings.get? "empty" = some (.object ⟨[("items", .array [])]⟩) := h
  have hroot : scope.root ambient "empty" = pure (.object ⟨[("items", .array [])]⟩) := by
    simp [Scope.root, Scope.root?, hbinding]
  rw [Scope.evalParts, Scope.reference, hroot]
  rfl

/-- A container with keys or elements, or with nothing in it. -/
theorem Expr.yields_container {scope : Scope} (span : Span) {body : Container Expr}
    {value : Value} (hkind : body.kind = .unknown → body.members = [])
    (h : Container.Adds scope
      (if body.kind = .array then .array [] else .object .empty) body.members value) :
    (Expr.container span body).Yields scope value := by
  obtain ⟨depth, hadds⟩ := h
  refine .of_parts ⟨depth, fun ambient => ?_⟩
  have hbody := hadds ambient
  obtain ⟨kind, members⟩ := body
  cases kind with
  | array => exact hbody
  | object => exact hbody
  | unknown =>
      cases hkind rfl
      exact hbody

open Source ConfigNotation.Parser

/-- The literal that a written leaf is read as. -/
theorem literal_leaf {verbatim : Prop} {value : Value} (hleaf : value.isContainer = false)
    (h : value.IsLegible verbatim) :
    (leafKind value).isLiteral = true ∧ ∃ literal,
      (∀ workspace token, token.kind = leafKind value → token.text = leafText value →
        Literal.ofToken workspace token = .ok literal) ∧
      ∀ (scope : Scope) ambient, scope.literal ambient literal = pure value.readBack := by
  have hquoted (text : String) : (∀ workspace token, token.kind = .string →
      token.text = quoted text →
        Literal.ofToken workspace token = .ok (.string (String.ofList (body text.toList)))) ∧
      ∀ (scope : Scope) ambient, scope.literal ambient
        (.string (String.ofList (body text.toList))) = pure (.string text) := by
    refine ⟨fun workspace token hkind htext => ?_, fun scope ambient => ?_⟩
    · simp only [Literal.ofToken, hkind, htext, quoted_toList, Text.unquoted_quotes]
    · simp only [Scope.literal, Template.ofText, Template.fill, String.toList_ofList, fill_body,
        String.ofList_toList]
  cases value with
  | null =>
      exact ⟨rfl, .null, fun _ _ hkind _ => by simp only [Literal.ofToken, hkind, leafKind],
        fun _ _ => rfl⟩
  | undefined =>
      exact ⟨rfl, .undefined, fun _ _ hkind _ => by simp only [Literal.ofToken, hkind, leafKind],
        fun _ _ => rfl⟩
  | boolean value =>
      refine ⟨rfl, .boolean value, fun _ _ hkind htext => ?_, fun _ _ => rfl⟩
      cases value <;> simp only [Literal.ofToken, hkind, htext, leafKind, leafText] <;> rfl
  | number value =>
      refine ⟨rfl, .number value.readBack, fun _ _ hkind htext => ?_, fun _ _ => rfl⟩
      simp only [Literal.ofToken, hkind, htext, leafKind, leafText, value.readNumber?_text]
  | bigInt value =>
      refine ⟨rfl, .bigInt value, fun _ _ hkind htext => ?_, fun _ _ => rfl⟩
      simp only [Literal.ofToken, hkind, htext, leafKind, leafText, Literal.readBigInt?_text]
  | string text => exact ⟨rfl, _, hquoted text⟩
  | buffer value => exact ⟨rfl, _, hquoted value.text⟩
  | regExp value =>
      refine ⟨rfl, .regExp value, fun _ _ hkind htext => ?_, fun _ _ => rfl⟩
      simp only [Literal.ofToken, hkind, htext, leafKind, leafText, h.1.readRegExp]
      rfl
  | date => cases h
  | array | object => cases hleaf

/-- An expression has a value as it is read back, if the scope knows the names
that the value needs. -/
def Expr.Means (value : Value) (expr : Expr) : Prop :=
  ∀ scope : Scope, (value.holdsEmptyArray = true → scope.BindsEmptyArray) →
    expr.Yields scope value.readBack

variable {verbatim : Prop} {workspace : Workspace} {cursor : Cursor} {rest : List Tag}

/-- An operand in front of a semicolon is a whole expression. -/
theorem expr_reads {property : Expr → Prop}
    (h : Reads (operand workspace cursor) ((.semicolon, ";") :: rest) property) :
    Reads (expr workspace cursor) ((.semicolon, ";") :: rest) property := by
  obtain ⟨⟨left, afterLeft, hleft⟩, hoperand, hrest, hproperty⟩ := h
  have hquestion : afterLeft.take? .question = none := Cursor.take?_eq_none hrest (by simp)
  refine ⟨⟨left, afterLeft, hleft⟩, ?_, hrest, hproperty⟩
  rw [expr, hoperand]
  simp only [bind, Except.bind, hquestion]
  rfl

/-- A leaf is read as an operand that means the leaf, from the one tag that it
is written as. -/
theorem operand_leaf {value : Value} (hleaf : value.isContainer = false)
    (h : value.IsLegible verbatim)
    (htags : cursor.tags = (leafKind value, leafText value) :: rest) :
    Reads (operand workspace cursor) rest (Expr.Means value) := by
  obtain ⟨hliteral, literal, htoken, hmeaning⟩ := literal_leaf hleaf h
  have hkind : leafKind value ≠ .endOfInput := by
    intro heq
    rw [heq] at hliteral
    cases hliteral
  obtain ⟨⟨token, after, hafter⟩, hnext, hsame, htext, hrest⟩ := Cursor.next?_of_tags htags hkind
  refine ⟨⟨.literal token.span literal, after, hafter⟩, ?_, hrest,
    fun scope _ => Expr.yields_literal _ (hmeaning scope)⟩
  have hread := htoken workspace token hsame htext
  dsimp only at hsame htext
  rw [operand, hnext]
  dsimp only
  rw [hsame]
  cases value with
  | date => cases h
  | array | object => cases hleaf
  | _ => simp only [leafKind, TokenKind.isLiteral, if_true, hread]

theorem operand_emptyArray (htags : cursor.tags = (.path, "empty.items") :: rest) :
    Reads (operand workspace cursor) rest (Expr.Means (.array [])) := by
  obtain ⟨⟨token, after, hafter⟩, hnext, hkind, htext, hrest⟩ :=
    Cursor.next?_of_tags htags (by simp)
  dsimp only at hkind htext
  have hsegments : pathSegments token = ["empty", "items"] := by
    rw [pathSegments, htext]
    decide
  refine ⟨⟨.path token.span ["empty", "items"], after, hafter⟩, ?_, hrest,
    fun scope hscope => Expr.yields_emptyArray _ (hscope rfl)⟩
  rw [operand, hnext]
  dsimp only
  rw [hkind]
  dsimp only
  rw [hsegments]

theorem members_closed {kind : ContainerKind}
    (htags : cursor.tags = (.rightBracket, "]") :: rest) :
    Reads (members workspace kind cursor) rest fun body => body = ⟨kind, []⟩ := by
  obtain ⟨⟨token, after, hafter⟩, htake, _, _, hrest⟩ := Cursor.take?_of_tags htags (by simp)
  exact ⟨⟨⟨kind, []⟩, after, hafter⟩, by rw [members, htake], hrest, rfl⟩

def readMember (kind : TokenKind) (key : String) (value : Expr) : Member Expr :=
  if kind = .assocKey then .property key value else .element value

/-- An entry in front of others is read as a member in front of theirs, when its
key fits to the kind so far. -/
theorem members_entry {kind : ContainerKind} {mark : TokenKind} {key : List Char}
    {valueTags more : List Tag} {valueProperty : Expr → Prop} {property : Container Expr → Prop}
    (hmark : mark = .assocKey ∨ mark = .numericKey)
    (hkind : kind = .unknown ∨ kind = keyKind mark)
    (htags : cursor.tags = (mark, String.ofList ('@' :: key)) :: (.arrow, "=>") ::
      (valueTags ++ (.semicolon, ";") :: more))
    (hvalue : ∀ cursor : Cursor, cursor.tags = valueTags ++ (.semicolon, ";") :: more →
      Reads (operand workspace cursor) ((.semicolon, ";") :: more) valueProperty)
    (hmembers : ∀ cursor : Cursor, cursor.tags = more →
      Reads (members workspace (keyKind mark) cursor) rest property) :
    Reads (members workspace kind cursor) rest fun body => ∃ value others,
      valueProperty value ∧ property others ∧
        body = ⟨others.kind, readMember mark (String.ofList key) value :: others.members⟩ := by
  have hend : mark ≠ .endOfInput := by rcases hmark with rfl | rfl <;> decide
  have hbracket : cursor.take? .rightBracket = none :=
    Cursor.take?_eq_none htags (by rcases hmark with rfl | rfl <;> decide)
  obtain ⟨⟨token, after, hafter⟩, hnext, hsame, htext, hnextTags⟩ :=
    Cursor.next?_of_tags htags hend
  obtain ⟨⟨arrow, afterArrow, harrow⟩, hexpect, _, _, harrowTags⟩ :=
    Cursor.expect_of_tags hnextTags (by simp)
  obtain ⟨⟨value, afterValue, hvalueShorter⟩, hexpr, hvalueTags, hvalueProperty⟩ :=
    expr_reads (hvalue _ harrowTags)
  obtain ⟨⟨semicolon, afterEnd, hendShorter⟩, hsemicolon, _, _, hendTags⟩ :=
    Cursor.expect_of_tags hvalueTags (by simp)
  obtain ⟨⟨others, afterRest, hothersShorter⟩, hothers, hrest, hproperty⟩ := hmembers _ hendTags
  dsimp only at hsame htext hrest hproperty hexpect hexpr hsemicolon hothers
  dsimp only at harrow hvalueShorter hendShorter hothersShorter
  have hmember : keyedMember token value = readMember mark (String.ofList key) value := by
    simp [keyedMember, readMember, hsame, keyName, htext, Text.dropLeading]
  have hwanted : ¬(kind ≠ .unknown ∧ kind ≠ keyKind mark) := by
    rcases hkind with rfl | rfl <;> simp
  refine ⟨⟨⟨others.kind, readMember mark (String.ofList key) value :: others.members⟩, afterRest,
    by omega⟩, ?_, hrest, value, others, hvalueProperty, hproperty, rfl⟩
  rw [members, hbracket, hnext]
  dsimp only
  rw [hsame]
  rcases hmark with rfl | rfl
  · dsimp only
    simp only [if_neg hwanted, hexpect, hexpr, hsemicolon, hothers, hmember, bind, Except.bind]
    rfl
  · dsimp only
    simp only [if_neg hwanted, hexpect, hexpr, hsemicolon, hothers, hmember, bind, Except.bind]
    rfl

/-- A container is read from its bracket on, with the kind that its members
give. -/
theorem operand_container {more : List Tag} {property : Container Expr → Prop}
    (htags : cursor.tags = (.leftBracket, "[") :: more)
    (hmembers : ∀ cursor : Cursor, cursor.tags = more →
      Reads (members workspace .unknown cursor) rest property) :
    Reads (operand workspace cursor) rest fun expr => ∃ span body,
      expr = .container span body ∧ property body := by
  obtain ⟨⟨token, after, hafter⟩, hnext, hkind, _, _⟩ := Cursor.next?_of_tags htags (by simp)
  obtain ⟨⟨opening, afterOpening, hopening⟩, hexpect, _, _, hopeningTags⟩ :=
    Cursor.expect_of_tags htags (by simp)
  obtain ⟨⟨body, afterBody, hbody⟩, hmembers, hrest, hproperty⟩ := hmembers _ hopeningTags
  dsimp only at hkind hmembers hrest hproperty hbody
  refine ⟨⟨.container (token.span.merge afterBody.previous) body, afterBody, by omega⟩, ?_, hrest,
    _, body, rfl, hproperty⟩
  have hcontainer : container workspace cursor = .ok ⟨body, afterBody, by omega⟩ := by
    rw [container, hexpect]
    simp only [bind, Except.bind, hmembers]
    rfl
  rw [operand, hnext]
  dsimp only
  rw [hkind]
  dsimp only
  rw [hcontainer]
  rfl

namespace Container

/-- The kind that the keys of entries give to a container; none do if there are
none. -/
def keyedKind {α : Type} (wanted kind : ContainerKind) : List α → ContainerKind
  | [] => kind
  | _ :: _ => wanted

/-- A body that adds elements to an array. -/
structure MeansItems (items : List Value) (kind : ContainerKind) (body : Container Expr) :
    Prop where
  kind : body.kind = keyedKind .array kind items
  adds : ∀ scope : Scope,
    (Value.itemsHoldEmptyArray items = true → scope.BindsEmptyArray) →
    ∀ built, Adds scope (.array built) body.members (.array (built ++ Value.itemsReadBack items))

/-- A body that adds entries to a record that has none of their keys. -/
structure MeansEntries (entries : List (String × Value)) (kind : ContainerKind)
    (body : Container Expr) : Prop where
  kind : body.kind = keyedKind .object kind entries
  members : entries = [] → body.members = []
  adds : ∀ scope : Scope,
    (Value.entriesHoldEmptyArray entries = true → scope.BindsEmptyArray) →
    ∀ built, (entries.map (·.1)).Nodup →
      (∀ key ∈ entries.map (·.1), key ∉ built.map (·.1)) →
      Adds scope (.object ⟨built⟩) body.members
        (.object ⟨built ++ Value.entriesReadBack entries⟩)

theorem MeansItems.cons {item : Value} {items : List Value} {kind : ContainerKind} {expr : Expr}
    {others : Container Expr} (hitem : expr.Means item) (hothers : MeansItems items .array others) :
    MeansItems (item :: items) kind ⟨others.kind, .element expr :: others.members⟩ where
  kind := by
    have hkind := hothers.kind
    cases items <;> exact hkind
  adds scope hscope built := by
    rw [Value.itemsHoldEmptyArray, Bool.or_eq_true] at hscope
    have hvalue := hitem scope fun hholds => hscope (.inl hholds)
    have hrest := hothers.adds scope (fun hholds => hscope (.inr hholds))
      (built ++ [item.readBack])
    rw [List.append_assoc] at hrest
    exact .cons hvalue rfl hrest

theorem MeansEntries.cons {key : String} {item : Value} {entries : List (String × Value)}
    {kind : ContainerKind} {expr : Expr} {others : Container Expr} (hitem : expr.Means item)
    (hothers : MeansEntries entries .object others) :
    MeansEntries ((key, item) :: entries) kind
      ⟨others.kind, .property key expr :: others.members⟩ where
  kind := by
    have hkind := hothers.kind
    cases entries <;> exact hkind
  members := nofun
  adds scope hscope built hkeys hnew := by
    rw [Value.entriesHoldEmptyArray, Bool.or_eq_true] at hscope
    rw [List.map_cons, List.nodup_cons] at hkeys
    rw [List.map_cons, List.forall_mem_cons] at hnew
    have hvalue := hitem scope fun hholds => hscope (.inl hholds)
    have hrest := hothers.adds scope (fun hholds => hscope (.inr hholds))
      (built ++ [(key, item.readBack)]) hkeys.2 (by
        intro other hother
        rw [List.map_append, List.mem_append, not_or]
        refine ⟨hnew.2 other hother, ?_⟩
        rw [List.map_singleton, List.mem_singleton]
        rintro rfl
        exact hkeys.1 hother)
    rw [List.append_assoc] at hrest
    refine .cons hvalue ?_ hrest
    have hput := Record.put_of_not_mem hnew.1 item.readBack
    simp only [add, addToObject, Record.insert, hput]
    rfl

/-- A body that adds elements, with no kind fixed in front of it, means the
array of these elements. -/
theorem MeansItems.means {item : Value} {items : List Value} {body : Container Expr}
    (h : MeansItems (item :: items) .unknown body) (span : Span) :
    Expr.Means (.array (item :: items)) (.container span body) := by
  intro scope hscope
  have hkind : body.kind = .array := h.kind
  have hadds := h.adds scope hscope []
  refine Expr.yields_container span (by rw [hkind]; nofun) ?_
  rw [if_pos hkind]
  exact hadds

/-- A body that adds entries means the record of them. Their keys have to
differ, since a second one would replace the first. -/
theorem MeansEntries.means {entries : List (String × Value)} {body : Container Expr}
    (h : MeansEntries entries .unknown body) (hkeys : (entries.map (·.1)).Nodup) (span : Span) :
    Expr.Means (.object ⟨entries⟩) (.container span body) := by
  intro scope hscope
  have hkind : body.kind ≠ .array := by
    rw [h.kind]
    cases entries <;> nofun
  have hadds := h.adds scope hscope [] hkeys (by simp)
  refine Expr.yields_container span ?_ ?_
  · intro hunknown
    rw [h.kind] at hunknown
    cases entries with
    | nil => exact h.members rfl
    | cons => cases hunknown
  · rw [if_neg hkind]
    exact hadds

end Container

theorem tags_entryOf (indent level : Nat) (mark : TokenKind) (key : List Char)
    (value : List Word) (rest : List Tag) :
    (entryOf indent level mark key value).map Word.tag ++ rest =
      (mark, String.ofList ('@' :: key)) :: (.arrow, "=>") ::
        (value.map Word.tag ++ (.semicolon, ";") :: rest) := by
  simp [entryOf, Word.tag]

theorem tags_bracketedWords (gap closing : List Char) (entries : List Word) (rest : List Tag) :
    (bracketedWords gap entries closing).map Word.tag ++ rest =
      (.leftBracket, "[") :: (entries.map Word.tag ++ (.rightBracket, "]") :: rest) := by
  simp [bracketedWords, Word.tag]

mutual

/-- The words of a value are read as an expression for the value. -/
theorem operand_value {value : Value} (h : value.Keyed (Value.IsLegible verbatim))
    (indent level : Nat) (gap : List Char) {cursor : Cursor} {rest : List Tag}
    (htags : cursor.tags = (valueWords indent level gap value).map Word.tag ++ rest) :
    Reads (operand workspace cursor) rest (Expr.Means value) := by
  have hleaf (hleaf : value.isContainer = false) :
      Reads (operand workspace cursor) rest (Expr.Means value) := by
    rw [valueWords_leaf hleaf] at htags
    refine operand_leaf hleaf ((Value.keyed_leaf hleaf).1 h) ?_
    simpa [Word.tag] using htags
  cases value with
  | array items =>
      cases items with
      | nil => exact operand_emptyArray htags
      | cons item items =>
          rw [valueWords, tags_bracketedWords] at htags
          · obtain ⟨parsed, hresult, hrest, span, body, hexpr, hbody⟩ :=
              operand_container htags fun _ => members_items h indent (level + 1) (.inl rfl)
            exact ⟨parsed, hresult, hrest, hexpr ▸ hbody.means span⟩
          · nofun
  | object record =>
      obtain ⟨entries⟩ := record
      rw [valueWords, tags_bracketedWords] at htags
      obtain ⟨parsed, hresult, hrest, span, body, hexpr, hbody⟩ :=
        operand_container htags fun _ => members_entries h.2 indent (level + 1) (.inl rfl)
      exact ⟨parsed, hresult, hrest, hexpr ▸ hbody.means h.1 span⟩
  | _ => exact hleaf rfl

/-- The elements of an array are read back from the words that were written for
them, at every level of nesting. -/
theorem members_items {items : List Value}
    (h : Value.ItemsKeyed (Value.IsLegible verbatim) items) (indent level : Nat)
    {kind : ContainerKind} (hkind : kind = .unknown ∨ kind = .array) {cursor : Cursor}
    {rest : List Tag}
    (htags : cursor.tags =
      (itemWords indent level items).map Word.tag ++ (.rightBracket, "]") :: rest) :
    Reads (members workspace kind cursor) rest (Container.MeansItems items kind) := by
  cases items with
  | nil =>
      obtain ⟨parsed, hresult, hrest, hbody⟩ := members_closed htags
      refine ⟨parsed, hresult, hrest, by rw [hbody]; rfl, ?_⟩
      intro scope _ built
      rw [hbody, Value.itemsReadBack, List.append_nil]
      exact .nil scope _
  | cons item items =>
      rw [itemWords, List.map_append, List.append_assoc, tags_entryOf] at htags
      obtain ⟨parsed, hresult, hrest, value, others, hvalue, hothers, hbody⟩ :=
        members_entry (.inr rfl) hkind htags (fun _ => operand_value h.1 indent level _)
          (fun _ => members_items h.2 indent level (.inr rfl))
      exact ⟨parsed, hresult, hrest, hbody ▸ .cons hvalue hothers⟩

/-- The entries of a record are read back in the same way, under their keys. -/
theorem members_entries {entries : List (String × Value)}
    (h : Value.EntriesKeyed (Value.IsLegible verbatim) entries) (indent level : Nat)
    {kind : ContainerKind} (hkind : kind = .unknown ∨ kind = .object) {cursor : Cursor}
    {rest : List Tag}
    (htags : cursor.tags =
      (entryWords indent level entries).map Word.tag ++ (.rightBracket, "]") :: rest) :
    Reads (members workspace kind cursor) rest (Container.MeansEntries entries kind) := by
  match entries, h with
  | [], _ =>
      obtain ⟨parsed, hresult, hrest, hbody⟩ := members_closed htags
      refine ⟨parsed, hresult, hrest, by rw [hbody]; rfl, fun _ => by rw [hbody],
        fun scope _ built _ _ => ?_⟩
      rw [hbody, Value.entriesReadBack, List.append_nil]
      exact .nil scope _
  | (key, item) :: entries, ⟨_, hitem, hentries⟩ =>
      rw [entryWords, List.map_append, List.append_assoc, tags_entryOf] at htags
      obtain ⟨parsed, hresult, hrest, value, others, hvalue, hothers, hbody⟩ :=
        members_entry (.inl rfl) hkind htags (fun _ => operand_value hitem indent level _)
          (fun _ => members_entries hentries indent level (.inr rfl))
      rw [String.ofList_toList] at hbody
      exact ⟨parsed, hresult, hrest, hbody ▸ .cons hvalue hothers⟩

end

end ConfigNotation
