import ConfigNotation.Proofs.Syntax.Patterns
import ConfigNotation.Proofs.Syntax.Spanless
import ConfigNotation.Proofs.Token.Spelling

/-!
Tokens that differ in nothing but where they stand form the same syntax up to spans. Each
rule of the grammar looks at kinds and texts only, so a derivation from the ones is turned
into one from the others rule by rule.
-/

namespace ConfigNotation.Grammar

open ConfigNotation.Parser

/-- Tokens that differ in nothing but where they stand. -/
def Alike (tokens others : List Token) : Prop := others.map Token.tag = tokens.map Token.tag

section

variable {token other : Token}

theorem kind_of_tag (h : other.tag = token.tag) : other.kind = token.kind :=
  congrArg Prod.fst h

theorem text_of_tag (h : other.tag = token.tag) : other.text = token.text :=
  congrArg Prod.snd h

theorem kind_eq_of_tag {kind : TokenKind} (h : other.tag = token.tag) (hkind : token.kind = kind) :
    other.kind = kind :=
  (kind_of_tag h).trans hkind

end

namespace Alike

variable {token opening closing : Token} {tokens others first second rest inner : List Token}

theorem refl (tokens : List Token) : Alike tokens tokens := rfl

theorem symm (h : Alike tokens others) : Alike others tokens := Eq.symm h

theorem nil_left (h : Alike [] others) : others = [] := List.map_eq_nil_iff.1 h

theorem length_eq (h : Alike tokens others) : others.length = tokens.length := by
  simpa using congrArg List.length h

theorem uncons (h : Alike (token :: rest) others) :
    ∃ other after, others = other :: after ∧ other.tag = token.tag ∧ Alike rest after := by
  obtain ⟨other, after, rfl, htag, hrest⟩ := List.map_eq_cons_iff.1 h
  exact ⟨other, after, rfl, htag, hrest⟩

theorem single (h : Alike [token] others) : ∃ other, others = [other] ∧ other.tag = token.tag := by
  obtain ⟨other, _, rfl, htag, hrest⟩ := h.uncons
  obtain rfl := hrest.nil_left
  exact ⟨other, rfl, htag⟩

/-- Tokens that are alike can be cut at the same place. The rules of the grammar
cut their tokens in this way, and each part is then treated by itself. -/
theorem split (h : Alike (first ++ second) others) :
    ∃ before after, others = before ++ after ∧ Alike first before ∧ Alike second after := by
  rw [Alike, List.map_append] at h
  obtain ⟨before, after, rfl, hfirst, hsecond⟩ := List.map_eq_append_iff.1 h
  exact ⟨before, after, rfl, hfirst, hsecond⟩

/-- Tokens between a first and a last one. -/
theorem unbracket (h : Alike (opening :: (inner ++ [closing])) others) :
    ∃ start middle stop, others = start :: (middle ++ [stop]) ∧ start.tag = opening.tag ∧
      Alike inner middle ∧ stop.tag = closing.tag := by
  obtain ⟨start, _, rfl, hstart, h⟩ := h.uncons
  obtain ⟨middle, _, rfl, hinner, h⟩ := h.split
  obtain ⟨stop, rfl, hstop⟩ := h.single
  exact ⟨start, middle, stop, rfl, hstart, hinner, hstop⟩

theorem map_text (h : Alike tokens others) : tokens.map (·.text) = others.map (·.text) := by
  simpa [Function.comp_def, Token.tag] using congrArg (List.map Prod.snd) h.symm

theorem map_kind (h : Alike tokens others) : others.map (·.kind) = tokens.map (·.kind) := by
  simpa [Function.comp_def, Token.tag] using congrArg (List.map Prod.fst) h

theorem head?_kind (h : Alike tokens others) :
    others.head?.map (·.kind) = tokens.head?.map (·.kind) := by
  rw [← List.head?_map, h.map_kind, List.head?_map]

/-- A run of tokens of one kind is alike only to runs of that kind; so
separators stay separators, however many there are. -/
theorem forall_kind (h : Alike tokens others) {kind : TokenKind}
    (hkinds : ∀ token ∈ tokens, token.kind = kind) :
    ∀ other ∈ others, other.kind = kind := by
  intro other hother
  have hmem : other.kind ∈ tokens.map (·.kind) := h.map_kind ▸ List.mem_map_of_mem hother
  obtain ⟨token, htoken, hsame⟩ := List.mem_map.1 hmem
  exact hsame ▸ hkinds token htoken

end Alike

theorem Optional.alike {kind : TokenKind} {tokens others : List Token} {isPresent : Bool}
    (h : Optional kind tokens isPresent) (halike : Alike tokens others) :
    Optional kind others isPresent := by
  cases h with
  | missing =>
      obtain rfl := halike.nil_left
      exact .missing
  | present hkind =>
      obtain ⟨other, rfl, htag⟩ := halike.single
      exact .present (kind_eq_of_tag htag hkind)

theorem Separated.alike {kind : TokenKind} {ends rest tokens others : List Token}
    (h : Separated kind ends rest) (hends : Alike ends tokens) (hrest : Alike rest others) :
    Separated kind tokens others := by
  cases h with
  | mark hkind =>
      obtain ⟨other, rfl, htag⟩ := hends.single
      exact .mark (kind_eq_of_tag htag hkind) others
  | last =>
      obtain rfl := hends.nil_left
      obtain rfl := hrest.nil_left
      exact .last

/-- The end of a group is decided by kinds of tokens: the bracket, the mark in
front of it, and what follows. -/
theorem GroupEnd.alike {ends rest tokens others : List Token} (h : GroupEnd ends rest)
    (hends : Alike ends tokens) (hrest : Alike rest others) : GroupEnd tokens others := by
  cases h with
  | mark hkind =>
      obtain ⟨other, rfl, htag⟩ := hends.single
      exact .mark (kind_eq_of_tag htag hkind) others
  | missing hnone =>
      obtain rfl := hends.nil_left
      refine .missing fun other hother hkind => ?_
      have hsame := hrest.head?_kind
      rw [Option.mem_def.1 hother, Option.map_some, hkind] at hsame
      obtain ⟨token, htoken, hsemicolon⟩ := Option.map_eq_some_iff.1 hsame.symm
      exact hnone token htoken hsemicolon

section

variable {workspace : Workspace} {token other : Token}

/-- A file literal names the same file wherever it stands, since path and
encoding are read from its text. -/
theorem NamesFile.alike {file : FileRef} (h : NamesFile workspace token file)
    (htag : other.tag = token.tag) : NamesFile workspace other file := by
  have hparts : fileParts other = fileParts token := by
    rw [fileParts, fileParts, text_of_tag htag]
  exact {
    kind := kind_eq_of_tag htag h.kind
    encoding := by rw [hparts, h.encoding]
    path := by rw [hparts, h.path]
    present := h.present
    isFile := h.isFile }

/-- What a literal token stands for depends on its kind and its text, its
position left aside. -/
theorem ofToken_eq_of_tag (htag : other.tag = token.tag) :
    Literal.ofToken workspace other = Literal.ofToken workspace token := by
  simp only [Literal.ofToken, kind_of_tag htag, text_of_tag htag]

theorem IsLiteral.alike {value : Literal} (h : IsLiteral workspace token value)
    (htag : other.tag = token.tag) : IsLiteral workspace other value := by
  cases h with
  | file hfile => exact .file (hfile.alike htag)
  | plain hkind hother hvalue =>
      refine .plain ?_ ?_ ((ofToken_eq_of_tag htag).trans hvalue)
      · rwa [kind_of_tag htag]
      · rwa [kind_of_tag htag]

/-- The kind that members fix does not depend on their spans. -/
theorem FixesKind.spanless {members others : List (Member Expr)} {kind : ContainerKind}
    (h : FixesKind members kind)
    (hsame : others.map Member.spanless = members.map Member.spanless) : FixesKind others kind := by
  have hkinds : others.map memberKind = members.map memberKind := by
    have hkind (member : Member Expr) : memberKind member.spanless = memberKind member := by
      cases member <;> rfl
    simpa [Function.comp_def, hkind] using congrArg (List.map memberKind) hsame
  refine ⟨fun member hmember => ?_, h.fixed.imp_right ?_⟩
  · have hmem : memberKind member ∈ members.map memberKind :=
      hkinds ▸ List.mem_map_of_mem hmember
    obtain ⟨same, hsame, heq⟩ := List.mem_map.1 hmem
    rw [← heq]
    exact h.same same hsame
  · rintro ⟨member, hmember, rfl⟩
    have hmem : memberKind member ∈ others.map memberKind :=
      hkinds.symm ▸ List.mem_map_of_mem hmember
    exact List.mem_map.1 hmem

mutual

/-- Tokens that are alike form the same expression up to spans. -/
theorem IsExpr.alike {taken others : List Token} {expr : Expr} (h : IsExpr workspace taken expr)
    (halike : Alike taken others) :
    ∃ found, IsExpr workspace others found ∧ found.spanless = expr.spanless := by
  match h with
  | .operand hoperand =>
      obtain ⟨found, hfound, hsame⟩ := hoperand.alike halike
      exact ⟨found, .operand hfound, hsame⟩
  | .conditional hleft hmark hright =>
      obtain ⟨before, _, rfl, hfirst, hrest⟩ := halike.split
      obtain ⟨mark, after, rfl, htag, hsecond⟩ := hrest.uncons
      obtain ⟨left, hleft, hsameLeft⟩ := hleft.alike hfirst
      obtain ⟨right, hright, hsameRight⟩ := hright.alike hsecond
      refine ⟨_, .conditional hleft (kind_eq_of_tag htag hmark) hright, ?_⟩
      simp only [Expr.spanless, hsameLeft, hsameRight]
termination_by structural h

/-- Tokens that are alike form operands that differ in spans only. The family
below goes by the derivation, one case for each rule. -/
theorem IsOperand.alike {taken others : List Token} {expr : Expr}
    (h : IsOperand workspace taken expr) (halike : Alike taken others) :
    ∃ found, IsOperand workspace others found ∧ found.spanless = expr.spanless := by
  match h with
  | .container hbody =>
      obtain ⟨body, hfound, hsame⟩ := hbody.alike halike
      refine ⟨_, .container hfound, ?_⟩
      rw [Expr.spanless_container, hsame, Expr.spanless_container]
  | .literal hliteral =>
      obtain ⟨token, rfl, htag⟩ := halike.single
      exact ⟨_, .literal (hliteral.alike htag), rfl⟩
  | .path hkind =>
      obtain ⟨token, rfl, htag⟩ := halike.single
      refine ⟨_, .path (kind_eq_of_tag htag hkind), ?_⟩
      simp only [Expr.spanless, pathSegments, text_of_tag htag]
  | .name hkind =>
      obtain ⟨token, rfl, htag⟩ := halike.single
      refine ⟨_, .name (kind_eq_of_tag htag hkind), ?_⟩
      simp only [Expr.spanless, text_of_tag htag]
  | .call hname hopening harguments hclosing =>
      obtain ⟨name, _, rfl, hnameTag, hrest⟩ := halike.uncons
      obtain ⟨opening, inner, closing, rfl, hopeningTag, hinner, hclosingTag⟩ := hrest.unbracket
      obtain ⟨arguments, hfound, hsame⟩ := harguments.alike hinner
      refine ⟨_, .call (kind_eq_of_tag hnameTag hname) (kind_eq_of_tag hopeningTag hopening)
        hfound (kind_eq_of_tag hclosingTag hclosing), ?_⟩
      rw [Expr.spanless_call, hsame, text_of_tag hnameTag, Expr.spanless_call]
  | .classInstance hname hbody =>
      obtain ⟨name, tokens, rfl, hnameTag, hrest⟩ := halike.uncons
      obtain ⟨body, hfound, hsame⟩ := hbody.alike hrest
      refine ⟨_, .classInstance (kind_eq_of_tag hnameTag hname) hfound, ?_⟩
      rw [Expr.spanless_classInstance, hsame, text_of_tag hnameTag, Expr.spanless_classInstance]
termination_by structural h

/-- Containers keep their kind and their members. The brackets are cut off
first, and the members in them are alike as well. -/
theorem IsContainer.alike {taken others : List Token} {body : Container Expr}
    (h : IsContainer workspace taken body) (halike : Alike taken others) :
    ∃ found, IsContainer workspace others found ∧ found.spanless = body.spanless := by
  match h with
  | .intro hopening hmembers hkind hclosing =>
      obtain ⟨opening, inner, closing, rfl, hopeningTag, hinner, hclosingTag⟩ := halike.unbracket
      obtain ⟨members, hfound, hsame⟩ := hmembers.alike hinner
      refine ⟨_, .intro (kind_eq_of_tag hopeningTag hopening) hfound (hkind.spanless hsame)
        (kind_eq_of_tag hclosingTag hclosing), ?_⟩
      simp only [Container.spanless, hsame]
termination_by structural h

theorem AreMembers.alike {taken others : List Token} {members : List (Member Expr)}
    (h : AreMembers workspace taken members) (halike : Alike taken others) :
    ∃ found, AreMembers workspace others found ∧
      found.map Member.spanless = members.map Member.spanless := by
  match h with
  | .nil =>
      obtain rfl := halike.nil_left
      exact ⟨[], .nil, rfl⟩
  | .property hkey harrow hvalue hend hrest =>
      obtain ⟨key, _, rfl, hkeyTag, halike⟩ := halike.uncons
      obtain ⟨arrow, _, rfl, harrowTag, halike⟩ := halike.uncons
      obtain ⟨tokens, _, rfl, htokens, halike⟩ := halike.split
      obtain ⟨semicolon, rest, rfl, hendTag, halike⟩ := halike.uncons
      obtain ⟨value, hvalue, hsameValue⟩ := hvalue.alike htokens
      obtain ⟨members, hrest, hsameRest⟩ := hrest.alike halike
      refine ⟨_, .property (kind_eq_of_tag hkeyTag hkey) (kind_eq_of_tag harrowTag harrow) hvalue
        (kind_eq_of_tag hendTag hend) hrest, ?_⟩
      simp only [List.map_cons, hsameRest, Member.spanless, hsameValue, keyName,
        text_of_tag hkeyTag]
  | .element hkey harrow hvalue hend hrest =>
      obtain ⟨key, _, rfl, hkeyTag, halike⟩ := halike.uncons
      obtain ⟨arrow, _, rfl, harrowTag, halike⟩ := halike.uncons
      obtain ⟨tokens, _, rfl, htokens, halike⟩ := halike.split
      obtain ⟨semicolon, rest, rfl, hendTag, halike⟩ := halike.uncons
      obtain ⟨value, hvalue, hsameValue⟩ := hvalue.alike htokens
      obtain ⟨members, hrest, hsameRest⟩ := hrest.alike halike
      refine ⟨_, .element (kind_eq_of_tag hkeyTag hkey) (kind_eq_of_tag harrowTag harrow) hvalue
        (kind_eq_of_tag hendTag hend) hrest, ?_⟩
      simp only [List.map_cons, hsameRest, Member.spanless, hsameValue]
  | .spread hmark hvalue hend hrest =>
      obtain ⟨mark, _, rfl, hmarkTag, halike⟩ := halike.uncons
      obtain ⟨tokens, _, rfl, htokens, halike⟩ := halike.split
      obtain ⟨semicolon, rest, rfl, hendTag, halike⟩ := halike.uncons
      obtain ⟨value, hvalue, hsameValue⟩ := hvalue.alike htokens
      obtain ⟨members, hrest, hsameRest⟩ := hrest.alike halike
      refine ⟨_, .spread (kind_eq_of_tag hmarkTag hmark) hvalue (kind_eq_of_tag hendTag hend)
        hrest, ?_⟩
      simp only [List.map_cons, hsameRest, Member.spanless, hsameValue]
termination_by structural h

/-- Arguments stay in their order, and a spread one stays spread, since its mark
is one of the tokens. -/
theorem AreArguments.alike {taken others : List Token} {arguments : List (Argument Expr)}
    (h : AreArguments workspace taken arguments) (halike : Alike taken others) :
    ∃ found, AreArguments workspace others found ∧
      found.map Argument.spanless = arguments.map Argument.spanless := by
  match h with
  | .nil =>
      obtain rfl := halike.nil_left
      exact ⟨[], .nil, rfl⟩
  | .cons hmark hvalue hends hrest =>
      obtain ⟨mark, _, rfl, hmarkAlike, halike⟩ := halike.split
      obtain ⟨tokens, _, rfl, htokens, halike⟩ := halike.split
      obtain ⟨ends, rest, rfl, hendsAlike, halike⟩ := halike.split
      obtain ⟨value, hvalue, hsameValue⟩ := hvalue.alike htokens
      obtain ⟨arguments, hfound, hsameRest⟩ := hrest.alike halike
      refine ⟨_, .cons (hmark.alike hmarkAlike) hvalue (hends.alike hendsAlike halike) hfound, ?_⟩
      simp only [List.map_cons, hsameRest, Argument.spanless, hsameValue]
termination_by structural h

end

/-- A default is there in both texts or in neither, and what it evaluates is the
same but for spans. -/
theorem IsDefault.alike {inObjectType : Bool} {taken others : List Token} {default : Option Expr}
    (h : IsDefault workspace inObjectType taken default) (halike : Alike taken others) :
    ∃ found, IsDefault workspace inObjectType others found ∧
      found.map Expr.spanless = default.map Expr.spanless := by
  cases h with
  | missing =>
      obtain rfl := halike.nil_left
      exact ⟨none, .missing, rfl⟩
  | present hmark hvalue =>
      obtain ⟨mark, tokens, rfl, hmarkTag, htokens⟩ := halike.uncons
      obtain ⟨value, hvalue, hsame⟩ := hvalue.alike htokens
      refine ⟨_, .present ?_ hvalue, congrArg some hsame⟩
      rwa [kind_of_tag hmarkTag]

mutual

/-- Tokens that are alike form the same type up to spans. -/
theorem IsType.alike {taken others : List Token} {type : TypeExpr}
    (h : IsType workspace taken type) (halike : Alike taken others) :
    ∃ found, IsType workspace others found ∧ found.spanless = type.spanless := by
  match h with
  | .name hkind =>
      obtain ⟨token, rfl, htag⟩ := halike.single
      refine ⟨_, .name (kind_eq_of_tag htag hkind), ?_⟩
      rw [text_of_tag htag]
  | .text hkind =>
      obtain ⟨token, rfl, htag⟩ := halike.single
      refine ⟨_, .text (kind_eq_of_tag htag hkind), ?_⟩
      rw [text_of_tag htag]
  | .object hopening hfields hsome hclosing =>
      obtain ⟨opening, inner, closing, rfl, hopeningTag, hinner, hclosingTag⟩ := halike.unbracket
      obtain ⟨fields, hfound, hsame⟩ := hfields.alike hinner
      refine ⟨_, .object (kind_eq_of_tag hopeningTag hopening) hfound ?_
        (kind_eq_of_tag hclosingTag hclosing), ?_⟩
      · rintro rfl
        exact hsome (List.map_eq_nil_iff.1 hsame.symm)
      · rw [TypeExpr.spanless_object, hsame, TypeExpr.spanless_object]
  | .array hopening hclosing =>
      obtain ⟨opening, _, rfl, hopeningTag, hrest⟩ := halike.uncons
      obtain ⟨closing, rfl, hclosingTag⟩ := hrest.single
      exact ⟨_, .array (kind_eq_of_tag hopeningTag hopening)
        (kind_eq_of_tag hclosingTag hclosing), rfl⟩
  | .arrayOf hopening helement hclosing =>
      obtain ⟨opening, inner, closing, rfl, hopeningTag, hinner, hclosingTag⟩ := halike.unbracket
      obtain ⟨element, hfound, hsame⟩ := helement.alike hinner
      refine ⟨_, .arrayOf (kind_eq_of_tag hopeningTag hopening) hfound
        (kind_eq_of_tag hclosingTag hclosing), ?_⟩
      simp only [TypeExpr.spanless, hsame]
  | .tuple hopening helements hclosing =>
      obtain ⟨opening, inner, closing, rfl, hopeningTag, hinner, hclosingTag⟩ := halike.unbracket
      obtain ⟨elements, hfound, hsame⟩ := helements.alike hinner
      refine ⟨_, .tuple (kind_eq_of_tag hopeningTag hopening) hfound
        (kind_eq_of_tag hclosingTag hclosing), ?_⟩
      rw [TypeExpr.spanless_tuple, hsame, TypeExpr.spanless_tuple]
termination_by structural h

theorem AreElements.alike {isTuple : Bool} {taken others : List Token} {elements : List TypeExpr}
    (h : AreElements workspace taken isTuple elements) (halike : Alike taken others) :
    ∃ found, AreElements workspace others isTuple found ∧
      found.map TypeExpr.spanless = elements.map TypeExpr.spanless := by
  match h with
  | .nil =>
      obtain rfl := halike.nil_left
      exact ⟨[], .nil, rfl⟩
  | .last helement =>
      obtain ⟨element, hfound, hsame⟩ := helement.alike halike
      refine ⟨_, .last hfound, ?_⟩
      rw [List.map_singleton, hsame, List.map_singleton]
  | .cons helement hmark hrest =>
      obtain ⟨tokens, _, rfl, htokens, halike⟩ := halike.split
      obtain ⟨semicolon, rest, rfl, hmarkTag, halike⟩ := halike.uncons
      obtain ⟨element, helement, hsameElement⟩ := helement.alike htokens
      obtain ⟨elements, hrest, hsameRest⟩ := hrest.alike halike
      refine ⟨_, .cons helement (kind_eq_of_tag hmarkTag hmark) hrest, ?_⟩
      simp only [List.map_cons, hsameElement, hsameRest]
termination_by structural h

/-- The type behind a colon is the same but for spans. A field without
annotation takes every value in both texts. -/
theorem IsFieldType.alike {taken others : List Token} {type : TypeExpr}
    (h : IsFieldType workspace taken type) (halike : Alike taken others) :
    ∃ found, IsFieldType workspace others found ∧ found.spanless = type.spanless := by
  match h with
  | .missing =>
      obtain rfl := halike.nil_left
      exact ⟨.any, .missing, rfl⟩
  | .present hcolon htype =>
      obtain ⟨colon, tokens, rfl, hcolonTag, htokens⟩ := halike.uncons
      obtain ⟨found, hfound, hsame⟩ := htype.alike htokens
      exact ⟨found, .present (kind_eq_of_tag hcolonTag hcolon) hfound, hsame⟩
termination_by structural h

theorem IsField.alike {inObjectType : Bool} {taken others : List Token} {field : Field TypeExpr}
    (h : IsField workspace inObjectType taken field) (halike : Alike taken others) :
    ∃ found, IsField workspace inObjectType others found ∧ found.spanless = field.spanless := by
  match h with
  | .intro hkey hmark htype hdefault hend =>
      obtain ⟨key, _, rfl, hkeyTag, halike⟩ := halike.uncons
      obtain ⟨mark, _, rfl, hmarkAlike, halike⟩ := halike.split
      obtain ⟨typeTokens, _, rfl, htypeAlike, halike⟩ := halike.split
      obtain ⟨value, _, rfl, hvalueAlike, halike⟩ := halike.split
      obtain ⟨semicolon, rfl, hendTag⟩ := halike.single
      obtain ⟨type, htype, hsameType⟩ := htype.alike htypeAlike
      obtain ⟨default, hdefault, hsameDefault⟩ := hdefault.alike hvalueAlike
      refine ⟨_, .intro (kind_eq_of_tag hkeyTag hkey) (hmark.alike hmarkAlike) htype hdefault
        (kind_eq_of_tag hendTag hend), ?_⟩
      simp only [Field.spanless, keyName, text_of_tag hkeyTag, hsameType, hsameDefault]
termination_by structural h

/-- Fields stay in their order with their names, marks, types and defaults, of
which only the spans may differ. -/
theorem AreFields.alike {inObjectType : Bool} {taken others : List Token}
    {fields : List (Field TypeExpr)} (h : AreFields workspace inObjectType taken fields)
    (halike : Alike taken others) :
    ∃ found, AreFields workspace inObjectType others found ∧
      found.map Field.spanless = fields.map Field.spanless := by
  match h with
  | .nil =>
      obtain rfl := halike.nil_left
      exact ⟨[], .nil, rfl⟩
  | .cons hfield hrest =>
      obtain ⟨tokens, rest, rfl, htokens, halike⟩ := halike.split
      obtain ⟨field, hfield, hsameField⟩ := hfield.alike htokens
      obtain ⟨fields, hrest, hsameRest⟩ := hrest.alike halike
      refine ⟨_, .cons hfield hrest, ?_⟩
      simp only [List.map_cons, hsameField, hsameRest]
termination_by structural h

end

end

theorem AreParameters.alike {taken others : List Token} {parameters : List Parameter}
    (h : AreParameters taken parameters) (halike : Alike taken others) :
    AreParameters others parameters := by
  induction h generalizing others with
  | nil =>
      obtain rfl := halike.nil_left
      exact .nil
  | cons hmark hname hends hlast _ ih =>
      obtain ⟨mark, _, rfl, hmarkAlike, halike⟩ := halike.split
      obtain ⟨name, _, rfl, hnameTag, halike⟩ := halike.uncons
      obtain ⟨ends, rest, rfl, hendsAlike, halike⟩ := halike.split
      rw [← text_of_tag hnameTag]
      exact .cons (hmark.alike hmarkAlike) (kind_eq_of_tag hnameTag hname)
        (hends.alike hendsAlike halike) hlast (ih halike)

/-- Parameters are names and marks, which have no spans. So they are the same,
and not only alike. -/
theorem HasParameters.alike {taken others : List Token} {parameters : List Parameter}
    (h : HasParameters taken parameters) (halike : Alike taken others) :
    HasParameters others parameters := by
  cases h with
  | missing =>
      obtain rfl := halike.nil_left
      exact .missing
  | present hopening hparameters hclosing =>
      obtain ⟨opening, inner, closing, rfl, hopeningTag, hinner, hclosingTag⟩ := halike.unbracket
      exact .present (kind_eq_of_tag hopeningTag hopening) (hparameters.alike hinner)
        (kind_eq_of_tag hclosingTag hclosing)

theorem HasBase.alike {taken others : List Token} {base : Option String}
    (h : HasBase taken base) (halike : Alike taken others) : HasBase others base := by
  cases h with
  | missing =>
      obtain rfl := halike.nil_left
      exact .missing
  | present hmark hname =>
      obtain ⟨mark, _, rfl, hmarkTag, hrest⟩ := halike.uncons
      obtain ⟨name, rfl, hnameTag⟩ := hrest.single
      rw [← text_of_tag hnameTag]
      exact .present (kind_eq_of_tag hmarkTag hmark) (kind_eq_of_tag hnameTag hname)

theorem HasMixins.alike {taken others : List Token} {mixins : List String}
    (h : HasMixins taken mixins) (halike : Alike taken others) : HasMixins others mixins := by
  cases h with
  | missing =>
      obtain rfl := halike.nil_left
      exact .missing
  | present hmark hfirst hothers =>
      obtain ⟨mark, _, rfl, hmarkTag, hrest⟩ := halike.uncons
      obtain ⟨first, names, rfl, hfirstTag, hnames⟩ := hrest.uncons
      rw [← text_of_tag hfirstTag, hnames.map_text]
      refine .present (kind_eq_of_tag hmarkTag hmark) (kind_eq_of_tag hfirstTag hfirst) ?_
      exact hnames.forall_kind hothers

/-- Tokens that are alike form the same class up to spans. -/
theorem IsClass.alike {workspace : Workspace} {taken others : List Token} {decl : ClassDecl}
    (h : IsClass workspace taken decl) (halike : Alike taken others) :
    ∃ found, IsClass workspace others found ∧ found.spanless = decl.spanless := by
  cases h with
  | intro hmark hname hparameters hbase hmixins hopening hfields hclosing hend =>
      obtain ⟨mark, _, rfl, hmarkTag, halike⟩ := halike.uncons
      obtain ⟨name, _, rfl, hnameTag, halike⟩ := halike.uncons
      obtain ⟨parameterTokens, _, rfl, hparametersAlike, halike⟩ := halike.split
      obtain ⟨baseTokens, _, rfl, hbaseAlike, halike⟩ := halike.split
      obtain ⟨mixinTokens, _, rfl, hmixinsAlike, halike⟩ := halike.split
      obtain ⟨opening, _, rfl, hopeningTag, halike⟩ := halike.uncons
      obtain ⟨fieldTokens, _, rfl, hfieldsAlike, halike⟩ := halike.split
      obtain ⟨closing, _, rfl, hclosingTag, halike⟩ := halike.uncons
      obtain ⟨semicolon, rfl, hendTag⟩ := halike.single
      obtain ⟨fields, hfields, hsame⟩ := hfields.alike hfieldsAlike
      refine ⟨_, .intro (kind_eq_of_tag hmarkTag hmark) (kind_eq_of_tag hnameTag hname)
        (hparameters.alike hparametersAlike) (hbase.alike hbaseAlike)
        (hmixins.alike hmixinsAlike) (kind_eq_of_tag hopeningTag hopening) hfields
        (kind_eq_of_tag hclosingTag hclosing) (kind_eq_of_tag hendTag hend), ?_⟩
      simp only [ClassDecl.spanless, text_of_tag hnameTag, hsame]

section

variable {aliasEnd : AliasEnd}

mutual

/-- Groups and what they bind have no spans, so tokens that are alike form the
same group. -/
theorem IsGroup.alike {taken others : List Token} {leaves : List Leaf}
    (h : IsGroup aliasEnd taken leaves) (halike : Alike taken others) :
    IsGroup aliasEnd others leaves := by
  match h with
  | .intro hopening hentries hclosing =>
      obtain ⟨opening, inner, closing, rfl, hopeningTag, hinner, hclosingTag⟩ := halike.unbracket
      exact .intro (kind_eq_of_tag hopeningTag hopening) (hentries.alike hinner)
        (kind_eq_of_tag hclosingTag hclosing)
termination_by structural h

/-- Patterns have no spans at all, so the same leaves are bound: names, places
and the marks behind them. -/
theorem AreEntries.alike {place : Nat} {taken others : List Token} {leaves : List Leaf}
    (h : AreEntries aliasEnd place taken leaves) (halike : Alike taken others) :
    AreEntries aliasEnd place others leaves := by
  match h with
  | .nil _ =>
      obtain rfl := halike.nil_left
      exact .nil place
  | .name hname hends hrest =>
      obtain ⟨name, _, rfl, hnameTag, halike⟩ := halike.uncons
      obtain ⟨ends, rest, rfl, hendsAlike, halike⟩ := halike.split
      rw [← text_of_tag hnameTag]
      exact .name (kind_eq_of_tag hnameTag hname) (hends.alike hendsAlike halike)
        (hrest.alike halike)
  | .empty hend hrest =>
      obtain ⟨semicolon, rest, rfl, hendTag, halike⟩ := halike.uncons
      exact .empty (kind_eq_of_tag hendTag hend) (hrest.alike halike)
  | .skip hword hends hrest =>
      obtain ⟨word, _, rfl, hwordTag, halike⟩ := halike.uncons
      obtain ⟨ends, rest, rfl, hendsAlike, halike⟩ := halike.split
      exact .skip (kind_eq_of_tag hwordTag hword) (hends.alike hendsAlike halike)
        (hrest.alike halike)
  | .group hgroup hends hrest =>
      obtain ⟨tokens, _, rfl, htokens, halike⟩ := halike.split
      obtain ⟨ends, rest, rfl, hendsAlike, halike⟩ := halike.split
      exact .group (hgroup.alike htokens) (hends.alike hendsAlike halike) (hrest.alike halike)
  | .keyedName hkey harrow hname hends hwritten hrest =>
      obtain ⟨key, _, rfl, hkeyTag, halike⟩ := halike.uncons
      obtain ⟨arrow, _, rfl, harrowTag, halike⟩ := halike.uncons
      obtain ⟨name, _, rfl, hnameTag, halike⟩ := halike.uncons
      obtain ⟨ends, rest, rfl, hendsAlike, halike⟩ := halike.split
      rw [← text_of_tag hkeyTag, ← text_of_tag hnameTag]
      refine .keyedName (kind_eq_of_tag hkeyTag hkey) (kind_eq_of_tag harrowTag harrow)
        (kind_eq_of_tag hnameTag hname) (hends.alike hendsAlike halike) ?_ (hrest.alike halike)
      rintro hrequired rfl
      exact hwritten hrequired hendsAlike.symm.nil_left
  | .keyedGroup hkey harrow hgroup hends hrest =>
      obtain ⟨key, _, rfl, hkeyTag, halike⟩ := halike.uncons
      obtain ⟨arrow, _, rfl, harrowTag, halike⟩ := halike.uncons
      obtain ⟨tokens, _, rfl, htokens, halike⟩ := halike.split
      obtain ⟨ends, rest, rfl, hendsAlike, halike⟩ := halike.split
      rw [← text_of_tag hkeyTag]
      exact .keyedGroup (kind_eq_of_tag hkeyTag hkey) (kind_eq_of_tag harrowTag harrow)
        (hgroup.alike htokens) (hends.alike hendsAlike halike) (hrest.alike halike)
termination_by structural h

end

theorem IsBinding.alike {taken others : List Token} {binding : Binding}
    (h : IsBinding aliasEnd taken binding) (halike : Alike taken others) :
    IsBinding aliasEnd others binding := by
  match h with
  | .name hkind =>
      obtain ⟨token, rfl, htag⟩ := halike.single
      rw [← text_of_tag htag]
      exact .name (kind_eq_of_tag htag hkind)
  | .pattern hgroup => exact .pattern (hgroup.alike halike)

variable {workspace : Workspace}

/-- Tokens that are alike form the same import up to spans. -/
theorem IsImport.alike {taken others : List Token} {statement : Import}
    (h : IsImport aliasEnd workspace taken statement) (halike : Alike taken others) :
    ∃ found, IsImport aliasEnd workspace others found ∧
      found.spanless = statement.spanless := by
  cases h with
  | binding hmark hsource has hbinding hend =>
      obtain ⟨mark, _, rfl, hmarkTag, halike⟩ := halike.uncons
      obtain ⟨source, _, rfl, hsourceTag, halike⟩ := halike.uncons
      obtain ⟨asWord, tokens, semicolon, rfl, hasTag, htokens, hendTag⟩ := halike.unbracket
      exact ⟨_, .binding (kind_eq_of_tag hmarkTag hmark) (hsource.alike hsourceTag)
        (kind_eq_of_tag hasTag has) (hbinding.alike htokens) (kind_eq_of_tag hendTag hend), rfl⟩
  | pattern hmark hgroup hfrom hsource hend =>
      obtain ⟨mark, _, rfl, hmarkTag, halike⟩ := halike.uncons
      obtain ⟨tokens, _, rfl, htokens, halike⟩ := halike.split
      obtain ⟨fromWord, _, rfl, hfromTag, halike⟩ := halike.uncons
      obtain ⟨source, _, rfl, hsourceTag, halike⟩ := halike.uncons
      obtain ⟨semicolon, rfl, hendTag⟩ := halike.single
      exact ⟨_, .pattern (kind_eq_of_tag hmarkTag hmark) (hgroup.alike htokens)
        (kind_eq_of_tag hfromTag hfrom) (hsource.alike hsourceTag)
        (kind_eq_of_tag hendTag hend), rfl⟩

theorem IsUsedValue.alike {taken others : List Token} {value : Expr}
    (h : IsUsedValue workspace taken value) (halike : Alike taken others) :
    ∃ found, IsUsedValue workspace others found ∧ found.spanless = value.spanless := by
  cases h with
  | operand hname hoperand =>
      obtain ⟨found, hfound, hsame⟩ := hoperand.alike halike
      obtain ⟨name, rest, rfl, hnameTag, _⟩ := halike.uncons
      exact ⟨found, .operand (kind_eq_of_tag hnameTag hname) hfound, hsame⟩
  | expr hfirst hexpr =>
      obtain ⟨found, hfound, hsame⟩ := hexpr.alike halike
      obtain ⟨first, rest, rfl, hfirstTag, _⟩ := halike.uncons
      exact ⟨found, .expr (by rwa [kind_of_tag hfirstTag]) hfound, hsame⟩

/-- Tokens that are alike form the same use up to spans. -/
theorem IsUse.alike {taken others : List Token} {statement : Use}
    (h : IsUse aliasEnd workspace taken statement) (halike : Alike taken others) :
    ∃ found, IsUse aliasEnd workspace others found ∧ found.spanless = statement.spanless := by
  cases h with
  | binding hmark hvalue has hbinding hend =>
      obtain ⟨mark, _, rfl, hmarkTag, halike⟩ := halike.uncons
      obtain ⟨valueTokens, _, rfl, hvalueAlike, halike⟩ := halike.split
      obtain ⟨asWord, tokens, semicolon, rfl, hasTag, htokens, hendTag⟩ := halike.unbracket
      obtain ⟨value, hvalue, hsame⟩ := hvalue.alike hvalueAlike
      refine ⟨_, .binding (kind_eq_of_tag hmarkTag hmark) hvalue (kind_eq_of_tag hasTag has)
        (hbinding.alike htokens) (kind_eq_of_tag hendTag hend), ?_⟩
      simp only [Use.spanless, hsame]
  | pattern hmark hgroup hsome hfrom hvalue hend =>
      obtain ⟨mark, _, rfl, hmarkTag, halike⟩ := halike.uncons
      obtain ⟨tokens, _, rfl, htokens, halike⟩ := halike.split
      obtain ⟨fromWord, valueTokens, semicolon, rfl, hfromTag, hvalueAlike, hendTag⟩ :=
        halike.unbracket
      obtain ⟨value, hvalue, hsame⟩ := hvalue.alike hvalueAlike
      refine ⟨_, .pattern (kind_eq_of_tag hmarkTag hmark) (hgroup.alike htokens)
        (by rwa [htokens.length_eq]) (kind_eq_of_tag hfromTag hfrom) hvalue
        (kind_eq_of_tag hendTag hend), ?_⟩
      simp only [Use.spanless, hsame]

/-- Tokens that are alike form the same module up to spans. -/
theorem IsModule.alike {taken others : List Token} {module : Module}
    (h : IsModule aliasEnd workspace taken module) (halike : Alike taken others) :
    ∃ found, IsModule aliasEnd workspace others found ∧ found.spanless = module.spanless := by
  induction h generalizing others with
  | exported hmark hbody hend =>
      obtain ⟨mark, tokens, semicolon, rfl, hmarkTag, htokens, hendTag⟩ := halike.unbracket
      obtain ⟨body, hbody, hsame⟩ := hbody.alike htokens
      refine ⟨_, .exported (kind_eq_of_tag hmarkTag hmark) hbody (kind_eq_of_tag hendTag hend), ?_⟩
      simp only [Module.spanless, hsame]
  | imported hfirst _ ih =>
      obtain ⟨tokens, rest, rfl, htokens, hrest⟩ := halike.split
      obtain ⟨first, hfirst, hsame⟩ := hfirst.alike htokens
      obtain ⟨module, hmodule, hsameRest⟩ := ih hrest
      simp only [Module.spanless, Module.mk.injEq] at hsameRest
      exact ⟨_, .imported hfirst hmodule, by simp [Module.spanless, hsame, hsameRest]⟩
  | used hfirst _ ih =>
      obtain ⟨tokens, rest, rfl, htokens, hrest⟩ := halike.split
      obtain ⟨first, hfirst, hsame⟩ := hfirst.alike htokens
      obtain ⟨module, hmodule, hsameRest⟩ := ih hrest
      simp only [Module.spanless, Module.mk.injEq] at hsameRest
      exact ⟨_, .used hfirst hmodule, by simp [Module.spanless, hsame, hsameRest]⟩
  | declared hfirst _ ih =>
      obtain ⟨tokens, rest, rfl, htokens, hrest⟩ := halike.split
      obtain ⟨first, hfirst, hsame⟩ := hfirst.alike htokens
      obtain ⟨module, hmodule, hsameRest⟩ := ih hrest
      simp only [Module.spanless, Module.mk.injEq] at hsameRest
      exact ⟨_, .declared hfirst hmodule, by simp [Module.spanless, hsame, hsameRest]⟩
  | loose hexpr hend _ ih =>
      obtain ⟨tokens, _, rfl, htokens, halike⟩ := halike.split
      obtain ⟨semicolon, rest, rfl, hendTag, hrest⟩ := halike.uncons
      obtain ⟨expr, hexpr, -⟩ := hexpr.alike htokens
      obtain ⟨module, hmodule, hsame⟩ := ih hrest
      exact ⟨module, .loose hexpr (kind_eq_of_tag hendTag hend) hmodule, hsame⟩

end

end ConfigNotation.Grammar
