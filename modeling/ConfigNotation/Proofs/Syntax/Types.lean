import ConfigNotation.Proofs.Syntax.Exprs

/-!
Types and fields are read as the grammar derives them. A key behind the opening bracket
tells an object type from the others, and no type other than an object type starts so.
-/

namespace ConfigNotation

open Grammar ConfigNotation.Parser

variable {workspace : Workspace}

theorem fieldDefault_obeys {inObjectType : Bool} {cursor : Cursor}
    {found : Found (Option Expr) cursor}
    (h : fieldDefault workspace inObjectType cursor = .ok found) :
    found.Obeys (IsDefault workspace inObjectType) := by
  rw [fieldDefault] at h
  split at h
  · cases h
    exact ⟨[], .refl cursor, .missing⟩
  · next mark hmark =>
    obtain ⟨⟨value, after, hless⟩, hread, h⟩ := bind_eq_ok.1 h
    obtain ⟨⟨value, after, hless⟩, hexpr, hread⟩ := bind_eq_ok.1 hread
    obtain ⟨taken, htaken, hvalue⟩ := expr_obeys hexpr
    cases hread
    cases h
    have hkind : cursor.Takes [mark.value] mark.after ∧
        (mark.value.kind = .arrow ∨ inObjectType = true ∧ mark.value.kind = .equals) := by
      have hmark := Option.or_eq_some_iff.1 (Option.orElse_eq_or.symm.trans hmark)
      rcases hmark with harrow | ⟨_, hequals⟩
      · exact (Cursor.takes_of_take? harrow).imp_right .inl
      · split at hequals
        · next hobject =>
          exact (Cursor.takes_of_take? hequals).imp_right fun h => .inr ⟨hobject, h⟩
        · cases hequals
    exact ⟨_, hkind.1.trans htaken, .present hkind.2 hvalue⟩

/-- Types in brackets, of which at most the last one stands without a
semicolon. -/
theorem Grammar.IsType.bracketed {opening closing : Token} {inner : List Token} {isTuple : Bool}
    {elements : List TypeExpr} (hopening : opening.kind = .leftBracket)
    (helements : AreElements workspace inner isTuple elements)
    (hclosing : closing.kind = .rightBracket) :
    IsType workspace (opening :: (inner ++ [closing])) (bracketedType isTuple elements) := by
  cases helements with
  | nil => exact .array hopening hclosing
  | last helement => exact .arrayOf hopening helement hclosing
  | cons helement hmark hrest => exact .tuple hopening (.cons helement hmark hrest) hclosing

theorem Grammar.AreFields.inner_eq_nil {inObjectType : Bool} {inner : List Token}
    (h : AreFields workspace inObjectType inner []) : inner = [] := by
  cases h
  rfl

def startsType : TokenKind → Bool
  | .ident | .string | .leftBracket => true
  | _ => false

theorem Grammar.IsType.start {taken : List Token} {type : TypeExpr}
    (h : IsType workspace taken type) :
    ∃ first rest, taken = first :: rest ∧ startsType first.kind = true := by
  cases h with
  | name hkind | text hkind => exact ⟨_, _, rfl, by rw [hkind]; rfl⟩
  | object hopening | array hopening | arrayOf hopening | tuple hopening =>
      exact ⟨_, _, rfl, by rw [hopening]; rfl⟩

theorem Grammar.AreElements.of_nil {isTuple : Bool} {elements : List TypeExpr}
    (h : AreElements workspace [] isTuple elements) : isTuple = false ∧ elements = [] := by
  generalize htokens : ([] : List Token) = tokens at h
  cases h with
  | nil => exact ⟨rfl, rfl⟩
  | last helement =>
      obtain ⟨_, _, rfl, _⟩ := helement.start
      cases htokens
  | cons => exact absurd htokens.symm (List.append_ne_nil_of_right_ne_nil _ nofun)

/-- An element with its semicolon, which may be missing behind the last one. -/
theorem Grammar.AreElements.separated {taken ends inner : List Token} {isTuple : Bool}
    {element : TypeExpr} {others : List TypeExpr} (helement : IsType workspace taken element)
    (hends : Separated .semicolon ends inner) (hrest : AreElements workspace inner isTuple others) :
    AreElements workspace (taken ++ (ends ++ inner)) (!ends.isEmpty || isTuple)
      (element :: others) := by
  cases hends with
  | mark hmark _ => exact .cons helement hmark hrest
  | last =>
      obtain ⟨rfl, rfl⟩ := hrest.of_nil
      simpa using AreElements.last helement

mutual

/-- What the reader of types accepts is derived by the grammar, for the types of
fields and for all types inside of them. -/
theorem typeExpr_obeys {cursor : Cursor} {parsed : Parsed TypeExpr cursor}
    (h : typeExpr workspace cursor = .ok parsed) :
    parsed.Obeys (IsType workspace) := by
  rw [typeExpr, inContext_eq_ok] at h
  cases hnext : cursor.next? with
  | none =>
      rw [hnext] at h
      cases h
  | some first =>
      obtain ⟨token, after, hafter⟩ := first
      have hfirst := Cursor.takes_of_next? hnext
      rw [hnext] at h
      dsimp only at h
      split at h
      · next hkind =>
        cases h
        exact ⟨_, hfirst, .name hkind⟩
      · next hkind =>
        cases h
        exact ⟨_, hfirst, .text hkind⟩
      · next hkind =>
        split at h
        · next hkey =>
          obtain ⟨⟨fields, afterFields, hless⟩, hread, h⟩ := bind_eq_ok.1 h
          obtain ⟨_, htaken, @⟨inner, closing, _, _, hclosing, hfields⟩⟩ := objectFields_obeys hread
          cases h
          have hsome : fields ≠ [] := by
            rintro rfl
            obtain rfl := hfields.inner_eq_nil
            rw [htaken.kind, hclosing] at hkey
            cases hkey
          exact ⟨_, hfirst.trans htaken, .object hkind hfields hsome hclosing⟩
        · obtain ⟨⟨⟨isTuple, elements⟩, afterElements, hless⟩, hread, h⟩ := bind_eq_ok.1 h
          obtain ⟨_, htaken, @⟨inner, closing, _, _, hclosing, helements⟩⟩ :=
            typeElements_obeys hread
          cases h
          exact ⟨_, hfirst.trans htaken, .bracketed hkind helements hclosing⟩
      · cases h
termination_by 4 * cursor.tokens.length

theorem objectFields_obeys {cursor : Cursor} {parsed : Parsed (List (Field TypeExpr)) cursor}
    (h : objectFields workspace cursor = .ok parsed) :
    parsed.Obeys (UpTo .rightBracket (AreFields workspace true)) := by
  rw [objectFields] at h
  cases hend : cursor.take? .rightBracket with
  | some closing =>
      obtain ⟨htakes, hclosing⟩ := Cursor.takes_of_take? hend
      rw [hend] at h
      cases h
      exact ⟨_, htakes, .nil hclosing .nil⟩
  | none =>
      have hopen := Cursor.kind_ne_of_take? hend (by simp)
      rw [hend] at h
      obtain ⟨⟨first, afterFirst, hless⟩, hfield, h⟩ := bind_eq_ok.1 h
      obtain ⟨others, hread, h⟩ := bind_eq_ok.1 h
      obtain ⟨taken, htaken, hrule⟩ := field_obeys hfield
      cases h
      exact (objectFields_obeys hread).behind htaken hopen fun _ hrest => .cons hrule hrest
termination_by 4 * cursor.tokens.length + 2

theorem typeElements_obeys {cursor : Cursor} {parsed : Parsed (Bool × List TypeExpr) cursor}
    (h : typeElements workspace cursor = .ok parsed) :
    parsed.Obeys (UpTo .rightBracket fun inner found =>
      AreElements workspace inner found.1 found.2) := by
  rw [typeElements] at h
  cases hend : cursor.take? .rightBracket with
  | some closing =>
      obtain ⟨htakes, hclosing⟩ := Cursor.takes_of_take? hend
      rw [hend] at h
      cases h
      exact ⟨_, htakes, .nil hclosing .nil⟩
  | none =>
      have hopen := Cursor.kind_ne_of_take? hend (by simp)
      rw [hend] at h
      obtain ⟨⟨element, afterElement, hless⟩, htype, h⟩ := bind_eq_ok.1 h
      dsimp only at h
      split at h
      · cases h
      · next hended =>
        obtain ⟨others, hread, h⟩ := bind_eq_ok.1 h
        have hendLess := (afterElement.eat .semicolon).noLonger
        obtain ⟨taken, htaken, hrule⟩ := typeExpr_obeys htype
        cases h
        refine (typeElements_obeys hread).behindItem htaken hopen (by simp) hended
          fun hends heaten hrest => ?_
        dsimp only
        rw [heaten]
        exact .separated hrule hends hrest
termination_by 4 * cursor.tokens.length + 1

/-- A field that was read is derived: its key, its mark, its type and its
default in this order. -/
theorem field_obeys {inObjectType : Bool} {cursor : Cursor}
    {parsed : Parsed (Field TypeExpr) cursor}
    (h : field workspace inObjectType cursor = .ok parsed) :
    parsed.Obeys (IsField workspace inObjectType) := by
  rw [field] at h
  obtain ⟨⟨key, afterKey, hkeyLess⟩, hexpect, h⟩ := bind_eq_ok.1 h
  dsimp only at h
  obtain ⟨⟨type, afterType, htypeLess⟩, htype, h⟩ := bind_eq_ok.1 h
  obtain ⟨⟨default, afterDefault, hdefaultLess⟩, hdefault, h⟩ := bind_eq_ok.1 h
  obtain ⟨⟨semicolon, after, hless⟩, hend, h⟩ := bind_eq_ok.1 h
  have hmarkLess := (afterKey.eat .question).noLonger
  obtain ⟨hkeyTakes, hkey⟩ := Cursor.takes_of_expectAs hexpect
  obtain ⟨mark, hmark, hmarkTakes, _⟩ := afterKey.eat_spec .question (by simp)
  obtain ⟨typeTokens, htypeTakes, htypeRule⟩ := fieldType_obeys htype
  obtain ⟨value, hvalueTakes, hvalueRule⟩ := fieldDefault_obeys hdefault
  obtain ⟨hendTakes, hsemicolon⟩ := Cursor.takes_of_expect hend
  cases h
  have hall := hkeyTakes.trans
    (hmarkTakes.trans (htypeTakes.trans (hvalueTakes.trans hendTakes)))
  refine ⟨_, hall, ?_⟩
  dsimp only
  rw [hkeyTakes.current, hall.merge]
  exact .intro hkey hmark htypeRule hvalueRule hsemicolon
termination_by 4 * cursor.tokens.length + 1

theorem fieldType_obeys {cursor : Cursor} {found : Found TypeExpr cursor}
    (h : fieldType workspace cursor = .ok found) :
    found.Obeys (IsFieldType workspace) := by
  rw [fieldType] at h
  cases hcolon : cursor.take? .colon with
  | none =>
      rw [hcolon] at h
      cases h
      exact ⟨[], .refl cursor, .missing⟩
  | some colon =>
      obtain ⟨colon, afterColon, hcolonLess⟩ := colon
      rw [hcolon] at h
      obtain ⟨⟨type, after, hless⟩, hread, h⟩ := bind_eq_ok.1 h
      obtain ⟨htakes, hkind⟩ := Cursor.takes_of_take? hcolon
      obtain ⟨taken, htaken, hrule⟩ := typeExpr_obeys hread
      cases h
      exact ⟨_, htakes.trans htaken, .present hkind hrule⟩
termination_by 4 * cursor.tokens.length

end

/-- What stands in front of a field's default, or of the end of the field. -/
theorem kind_of_isDefault {inObjectType : Bool} {taken : List Token} {default : Option Expr}
    {cursor after : Cursor} (h : IsDefault workspace inObjectType taken default)
    (htakes : cursor.Takes taken after) (hend : after.kind = .semicolon) :
    cursor.kind ≠ .colon ∧ cursor.kind ≠ .question := by
  cases h with
  | missing =>
      obtain rfl := htakes.unique (.refl cursor)
      rw [hend]
      simp
  | present hmark _ =>
      rw [htakes.kind]
      rcases hmark with hmark | ⟨_, hmark⟩ <;> rw [hmark]
      · simp
      · simp

/-- The question mark behind the type of a field is not taken for one in front
of it, as the type starts with a colon if there is one. -/
theorem kind_of_isFieldType {taken : List Token} {type : TypeExpr} {cursor after : Cursor}
    (h : IsFieldType workspace taken type) (htakes : cursor.Takes taken after)
    (hafter : after.kind ≠ .question) :
    cursor.kind ≠ .question := by
  cases h with
  | missing =>
      obtain rfl := htakes.unique (.refl cursor)
      exact hafter
  | present hcolon _ =>
      simp [htakes.kind, hcolon]

/-- A derived default is read in front of a semicolon, where an expression has
to end anyway. -/
theorem fieldDefault_accepts {inObjectType : Bool} {taken : List Token} {default : Option Expr}
    (h : IsDefault workspace inObjectType taken default) {cursor after : Cursor}
    (htakes : cursor.Takes taken after) (hend : after.kind = .semicolon) :
    ∃ hle, fieldDefault workspace inObjectType cursor = .ok ⟨default, after, hle⟩ := by
  cases h with
  | missing =>
      obtain rfl := htakes.unique (.refl cursor)
      have harrow : after.take? .arrow = none :=
        Cursor.take?_of_kind_ne (by simp [hend])
      have hequals : after.take? .equals = none :=
        Cursor.take?_of_kind_ne (by simp [hend])
      rw [fieldDefault, harrow, hequals, ite_self]
      exact ⟨Nat.le_refl _, rfl⟩
  | @present mark tokens value hmark hvalue =>
      obtain ⟨afterMark, hmarkTakes, hvalueTakes⟩ := htakes.uncons
      obtain ⟨_, hread⟩ := expr_accepts hvalue hvalueTakes (by rw [hend]; rfl)
      have hmarked : ∃ hless, (cursor.take? .arrow <|>
          (if inObjectType then cursor.take? .equals else none)) =
            some ⟨mark, afterMark, hless⟩ := by
        rcases hmark with harrow | ⟨hobject, hequals⟩
        · obtain ⟨hless, htake⟩ := hmarkTakes.take? harrow
          rw [htake]
          exact ⟨hless, rfl⟩
        · have harrow : cursor.take? .arrow = none :=
            Cursor.take?_of_kind_ne (by simp [htakes.kind, hequals])
          obtain ⟨hless, htake⟩ := hmarkTakes.take? hequals
          rw [harrow, if_pos hobject, htake]
          exact ⟨hless, rfl⟩
      obtain ⟨_, hmarked⟩ := hmarked
      rw [fieldDefault, hmarked]
      dsimp only
      rw [Parsed.thenRead, bind_of_ok hread]
      exact ⟨Nat.le_of_lt htakes.shorter, rfl⟩

theorem typeElements_end {closing : Token} (hclosing : closing.kind = .rightBracket)
    {cursor after : Cursor} (htakes : cursor.Takes [closing] after) :
    ∃ hless, typeElements workspace cursor = .ok ⟨(false, []), after, hless⟩ := by
  obtain ⟨hless, htake⟩ := htakes.take? hclosing
  rw [typeElements, htake]
  exact ⟨hless, rfl⟩

/-- How a reader of elements goes on, by what its parts read. -/
theorem typeElements_step {taken ends inner : List Token} {isTuple : Bool} {element : TypeExpr}
    {others : List TypeExpr} {closing : Token} {cursor after : Cursor}
    (helement : IsType workspace taken element) (hends : Separated .semicolon ends inner)
    (hclosing : closing.kind = .rightBracket)
    (htakes : cursor.Takes (taken ++ (ends ++ (inner ++ [closing]))) after)
    (hread : ∀ {middle : Cursor}, cursor.Takes taken middle →
      ∃ hless, typeExpr workspace cursor = .ok ⟨element, middle, hless⟩)
    (hothers : ∀ {next : Cursor}, next.Takes (inner ++ [closing]) after →
      ∃ hless, typeElements workspace next = .ok ⟨(isTuple, others), after, hless⟩) :
    ∃ hless, typeElements workspace cursor =
      .ok ⟨(!ends.isEmpty || isTuple, element :: others), after, hless⟩ := by
  obtain ⟨first, more, rfl, hstart⟩ := helement.start
  have hopen : cursor.take? .rightBracket = none := by
    apply Cursor.take?_of_kind_ne
    rw [htakes.kind]
    exact ne_of_starts hstart rfl
  obtain ⟨_, helementTakes, hbehind⟩ := htakes.split
  obtain ⟨_, hread⟩ := hread helementTakes
  obtain ⟨_, _, heat, hinner, hended⟩ := Cursor.eat_of_separated hends hbehind hclosing (by simp)
  obtain ⟨_, hothers⟩ := hothers hinner
  rw [typeElements, hopen]
  dsimp only
  rw [bind_of_ok hread]
  dsimp only
  rw [heat]
  dsimp only
  rw [if_neg hended, bind_of_ok hothers]
  exact ⟨htakes.shorter, rfl⟩

theorem Grammar.AreElements.start {taken : List Token} {elements : List TypeExpr}
    (h : AreElements workspace taken true elements) :
    ∃ first rest, taken = first :: rest ∧ startsType first.kind = true := by
  cases h with
  | cons helement =>
      obtain ⟨first, rest, rfl, hfirst⟩ := helement.start
      exact ⟨first, _, rfl, hfirst⟩

theorem Grammar.IsField.start {inObjectType : Bool} {taken : List Token}
    {field : Field TypeExpr} (h : IsField workspace inObjectType taken field) :
    ∃ first rest, taken = first :: rest ∧ first.kind = .assocKey := by
  cases h with
  | intro hkey => exact ⟨_, _, rfl, hkey⟩

theorem Grammar.AreFields.start {inObjectType : Bool} {taken : List Token}
    {fields : List (Field TypeExpr)} (h : AreFields workspace inObjectType taken fields)
    (hsome : fields ≠ []) :
    ∃ first rest, taken = first :: rest ∧ first.kind = .assocKey := by
  cases h with
  | nil => exact absurd rfl hsome
  | cons hfield _ =>
      obtain ⟨first, rest, rfl, hfirst⟩ := hfield.start
      exact ⟨first, _, rfl, hfirst⟩

/-- A type in brackets that starts with no key: its elements and whether it is a
tuple tell which type it is. -/
theorem typeExpr_of_elements {opening : Token} {behind : List Token} {isTuple : Bool}
    {elements : List TypeExpr} (hopening : opening.kind = .leftBracket) {cursor after : Cursor}
    (htakes : cursor.Takes (opening :: behind) after)
    (hkey : ∀ {next : Cursor}, next.Takes behind after → next.kind ≠ .assocKey)
    (hread : ∀ {next : Cursor}, next.Takes behind after →
      ∃ hless, typeElements workspace next = .ok ⟨(isTuple, elements), after, hless⟩) :
    ∃ hless, typeExpr workspace cursor =
      .ok ⟨bracketedType isTuple elements, after, hless⟩ := by
  obtain ⟨_, hfirst, hrest⟩ := htakes.uncons
  obtain ⟨_, hnext⟩ := hfirst.next?
  obtain ⟨_, hread⟩ := hread hrest
  rw [typeExpr]
  refine ⟨htakes.shorter, inContext_eq_ok.2 ?_⟩
  rw [hnext]
  dsimp only
  rw [hopening]
  dsimp only
  rw [if_neg (hkey hrest), bind_of_ok hread]
  rfl

mutual

/-- A derived type is read as derived, whatever follows: a type knows its end,
since it is a name, a string or in brackets. -/
theorem typeExpr_accepts {taken : List Token} {type : TypeExpr} (h : IsType workspace taken type)
    {cursor after : Cursor} (htakes : cursor.Takes taken after) :
    ∃ hless, typeExpr workspace cursor = .ok ⟨type, after, hless⟩ := by
  match h with
  | .name hkind | .text hkind =>
      obtain ⟨_, hnext⟩ := htakes.next?
      rw [typeExpr]
      refine ⟨htakes.shorter, inContext_eq_ok.2 ?_⟩
      rw [hnext]
      dsimp only
      rw [hkind]
  | .object hopening hfields hsome hclosing =>
      obtain ⟨_, hfirst, hrest⟩ := htakes.uncons
      obtain ⟨_, hnext⟩ := hfirst.next?
      obtain ⟨_, hread⟩ := objectFields_accepts hfields rfl hclosing hrest
      obtain ⟨key, others, rfl, hkey⟩ := hfields.start hsome
      rw [typeExpr]
      refine ⟨htakes.shorter, inContext_eq_ok.2 ?_⟩
      rw [hnext]
      dsimp only
      rw [hopening]
      dsimp only
      rw [if_pos (hrest.kind.trans hkey), bind_of_ok hread]
      rfl
  | .array hopening hclosing =>
      exact typeExpr_of_elements hopening htakes (fun hrest => by simp [hrest.kind, hclosing])
        (typeElements_end hclosing)
  | .arrayOf hopening helement hclosing =>
      refine typeExpr_of_elements hopening htakes (fun hrest => ?_) fun hrest =>
        typeElements_step helement .last hclosing hrest (typeExpr_accepts helement)
          (typeElements_end hclosing)
      obtain ⟨first, more, rfl, hstart⟩ := helement.start
      rw [hrest.kind]
      exact ne_of_starts hstart rfl
  | .tuple hopening helements hclosing =>
      refine typeExpr_of_elements hopening htakes (fun hrest => ?_)
        (typeElements_accepts helements hclosing)
      obtain ⟨first, more, rfl, hstart⟩ := helements.start
      rw [hrest.kind]
      exact ne_of_starts hstart rfl
termination_by structural h

theorem objectFields_accepts {inObjectType : Bool} {inner : List Token}
    {fields : List (Field TypeExpr)} (h : AreFields workspace inObjectType inner fields)
    (hobject : inObjectType = true) {closing : Token} (hclosing : closing.kind = .rightBracket)
    {cursor after : Cursor} (htakes : cursor.Takes (inner ++ [closing]) after) :
    ∃ hless, objectFields workspace cursor = .ok ⟨fields, after, hless⟩ := by
  match h with
  | .nil =>
      obtain ⟨hless, htake⟩ := htakes.take? hclosing
      rw [objectFields, htake]
      exact ⟨hless, rfl⟩
  | .cons hfield hrest =>
      rw [List.append_assoc] at htakes
      obtain ⟨_, hfieldTakes, hbehind⟩ := htakes.split
      obtain ⟨_, hread⟩ := field_accepts hfield hfieldTakes
      obtain ⟨_, hothers⟩ := objectFields_accepts hrest hobject hclosing hbehind
      subst hobject
      obtain ⟨first, _, rfl, hfirst⟩ := hfield.start
      have hopen : cursor.take? .rightBracket = none :=
        Cursor.take?_of_kind_ne (by simp [htakes.kind, hfirst])
      rw [objectFields, hopen]
      dsimp only
      rw [bind_of_ok hread]
      dsimp only
      rw [bind_of_ok hothers]
      exact ⟨htakes.shorter, rfl⟩
termination_by structural h

/-- The elements of a tuple are read with the marks between them. One element
without a mark is an array of that type, and no tuple. -/
theorem typeElements_accepts {inner : List Token} {isTuple : Bool} {elements : List TypeExpr}
    (h : AreElements workspace inner isTuple elements) {closing : Token}
    (hclosing : closing.kind = .rightBracket) {cursor after : Cursor}
    (htakes : cursor.Takes (inner ++ [closing]) after) :
    ∃ hless, typeElements workspace cursor = .ok ⟨(isTuple, elements), after, hless⟩ := by
  match h with
  | .nil => exact typeElements_end hclosing htakes
  | .last helement =>
      exact typeElements_step helement .last hclosing htakes (typeExpr_accepts helement)
        (typeElements_end hclosing)
  | @AreElements.cons _ tokens rest semicolon _ _ _ helement hmark hrest =>
      have htakes : cursor.Takes (tokens ++ ([semicolon] ++ (rest ++ [closing]))) after := by
        simpa using htakes
      exact typeElements_step helement (.mark hmark rest) hclosing htakes
        (typeExpr_accepts helement) (typeElements_accepts hrest hclosing)
termination_by structural h

/-- A derived field is read as derived, in classes and in object types, which
differ in how a default is written. -/
theorem field_accepts {inObjectType : Bool} {taken : List Token} {field : Field TypeExpr}
    (h : IsField workspace inObjectType taken field) {cursor after : Cursor}
    (htakes : cursor.Takes taken after) :
    ∃ hless, Parser.field workspace inObjectType cursor = .ok ⟨field, after, hless⟩ := by
  match h with
  | .intro hkey hmark htype hdefault hend =>
      obtain ⟨_, hkeyTakes, hbehindKey⟩ := htakes.uncons
      obtain ⟨_, hmarkTakes, hbehindMark⟩ := hbehindKey.split
      obtain ⟨_, htypeTakes, hbehindType⟩ := hbehindMark.split
      obtain ⟨_, hdefaultTakes, hendTakes⟩ := hbehindType.split
      have hbehindDefault := hendTakes.kind.trans hend
      obtain ⟨hcolon, hquestion⟩ := kind_of_isDefault hdefault hdefaultTakes hbehindDefault
      obtain ⟨_, hkeyRead⟩ := hkeyTakes.expectAs hkey "\"@name\""
      obtain ⟨_, hmarkRead⟩ := Cursor.eat_of_optional hmark hmarkTakes fun _ =>
        kind_of_isFieldType htype htypeTakes hquestion
      obtain ⟨_, htypeRead⟩ := fieldType_accepts htype htypeTakes hcolon
      obtain ⟨_, hdefaultRead⟩ := fieldDefault_accepts hdefault hdefaultTakes hbehindDefault
      obtain ⟨_, hendRead⟩ := hendTakes.expect hend
      rw [Parser.field, bind_of_ok hkeyRead]
      dsimp only
      rw [hmarkRead]
      dsimp only
      rw [bind_of_ok htypeRead]
      dsimp only
      rw [bind_of_ok hdefaultRead]
      dsimp only
      rw [bind_of_ok hendRead, hkeyTakes.current]
      dsimp only
      rw [htakes.merge]
      exact ⟨htakes.shorter, rfl⟩
termination_by structural h

theorem fieldType_accepts {taken : List Token} {type : TypeExpr}
    (h : IsFieldType workspace taken type) {cursor after : Cursor}
    (htakes : cursor.Takes taken after) (hend : after.kind ≠ .colon) :
    ∃ hle, fieldType workspace cursor = .ok ⟨type, after, hle⟩ := by
  match h with
  | .missing =>
      obtain rfl := htakes.unique (.refl cursor)
      rw [fieldType, Cursor.take?_of_kind_ne hend]
      exact ⟨Nat.le_refl _, rfl⟩
  | .present hcolon htype =>
      obtain ⟨_, hcolonTakes, htypeTakes⟩ := htakes.uncons
      obtain ⟨_, htake⟩ := hcolonTakes.take? hcolon
      obtain ⟨_, hread⟩ := typeExpr_accepts htype htypeTakes
      rw [fieldType, htake]
      dsimp only
      rw [bind_of_ok hread]
      exact ⟨Nat.le_of_lt htakes.shorter, rfl⟩
termination_by structural h

end

end ConfigNotation
