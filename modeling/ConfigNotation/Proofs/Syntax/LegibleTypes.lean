import ConfigNotation.Proofs.Syntax.Literals
import ConfigNotation.Proofs.Syntax.WellFormed
import ConfigNotation.Proofs.Token.Apart

/-!
What the types in a module are spelled with. A type stands behind a colon, a bracket or a
semicolon, so that the names in it are free ones; its keys are identifiers, and the bodies of
its strings do not close them.
-/

namespace ConfigNotation

open Grammar Pattern Relation

namespace TypeExpr

/-- A type has another one in it, at whatever depth, or is it. -/
def Contains : TypeExpr → TypeExpr → Prop := ReflTransGen fun whole part => part ∈ whole.parts

mutual

def hasDefault : TypeExpr → Bool
  | object fields => fieldsHaveDefault fields
  | arrayOf element => element.hasDefault
  | tuple elements => elementsHaveDefault elements
  | _ => false

def fieldsHaveDefault : List (Field TypeExpr) → Bool
  | [] => false
  | ⟨_, type, _, default, _⟩ :: rest =>
      default.isSome || (type.hasDefault || fieldsHaveDefault rest)

def elementsHaveDefault : List TypeExpr → Bool
  | [] => false
  | element :: rest => element.hasDefault || elementsHaveDefault rest

end

/-- A type by itself, without its parts, is spelled with words that are read for
it again. -/
def OwnLegible : TypeExpr → Prop
  | reference name => IsFreeName name.toList
  | object fields => fields ≠ [] ∧ ∀ field ∈ fields, isIdentifier field.name.toList = true
  | tuple elements => elements ≠ []
  | literal body => StaysOpen body.toList ∧ '\r' ∉ body.toList
  | array | arrayOf _ => True

def Legible (type : TypeExpr) : Prop := ∀ part, type.Contains part → part.OwnLegible

theorem Legible.parts {type : TypeExpr} (h : type.Legible) : ∀ part ∈ type.parts, part.Legible :=
  fun _ hpart inner hinner => h inner (.head hpart hinner)

theorem Legible.own {type : TypeExpr} (h : type.Legible) : type.OwnLegible := h type .refl

end TypeExpr

/-- Tokens that are cut from a text without returns, one behind the other. -/
structure AreCut (tokens : List Token) : Prop where
  matched : AreMatched tokens
  precedes : tokens.IsChain Token.Precedes
  noReturn : ∀ token ∈ tokens, '\r' ∉ token.text.toList

theorem AreCut.part {tokens inner : List Token} (h : AreCut tokens) (hinner : inner <:+: tokens) :
    AreCut inner where
  matched token htoken := h.matched token (hinner.subset htoken)
  precedes := by
    obtain ⟨before, after, rfl⟩ := hinner
    exact h.precedes.left_of_append.right_of_append
  noReturn token htoken := h.noReturn token (hinner.subset htoken)

/-- The tokens of a source are cut from a text whose line ends are normalized,
so no return is left in them. -/
theorem areCut_of_lex {source : String} {lexed : Lexed} (h : lex source = .ok lexed) :
    AreCut lexed.tokens where
  matched := lex_matched h
  precedes := (lex_follow h).precedes
  noReturn token htoken hreturn :=
    return_not_mem_of_lex h ((lex_follow h).inside token htoken hreturn)

/-- A mark that a type can stand behind. -/
def OpensType (kind : TokenKind) : Prop := kind ∈ [.colon, .leftBracket, .semicolon]

instance : DecidablePred OpensType := fun kind =>
  inferInstanceAs (Decidable (kind ∈ [.colon, .leftBracket, .semicolon]))

/-- No mark in front of a type ends in a character of a word. -/
theorem Token.IsMatched.isClear_of_opensType {token : Token} (h : token.IsMatched)
    (hkind : OpensType token.kind) : IsClear token.text.toList.getLast? := by
  have hmark {kind : TokenKind} {c : Char} (hsame : token.kind = kind)
      (honly : all.filter (·.kind = kind) = [⟨kind, fun _ => fixed? [c]⟩])
      (hchar : isWordChar c = false) : IsClear token.text.toList.getLast? := by
    obtain ⟨text, size, hmatch, htext⟩ := h.length?_of_kind (fixed? [c]) (hsame ▸ honly)
    rw [htext, take_of_fixed? hmatch]
    rintro d ⟨⟩
    exact hchar
  simp only [OpensType, List.mem_cons, List.not_mem_nil, or_false] at hkind
  rcases hkind with hkind | hkind | hkind
  · exact hmark (c := ':') hkind rfl rfl
  · exact hmark (c := '[') hkind rfl rfl
  · exact hmark (c := ';') hkind rfl rfl

/-- A name behind a mark is a free one. -/
theorem AreCut.isFreeName {mark token : Token} {rest : List Token}
    (h : AreCut (mark :: token :: rest)) (hmark : OpensType mark.kind)
    (hkind : token.kind = .ident) : IsFreeName token.text.toList := by
  have hinside : mark.kind ≠ .endOfInput := by
    intro hend
    rw [hend] at hmark
    exact absurd hmark (by decide)
  have hclear := (h.matched mark List.mem_cons_self hinside).isClear_of_opensType hmark
  exact (h.precedes.rel_head? rfl hclear (by rw [hkind]; decide)).isFreeName hkind

/-- A string among such tokens has quotes at its ends and none between them that
no backslash protects. -/
theorem AreCut.staysOpen {token : Token} {rest : List Token} (h : AreCut (token :: rest))
    (hkind : token.kind = .string) :
    ∃ body, token.text.toList = '"' :: (body ++ ['"']) ∧ StaysOpen body ∧ '\r' ∉ body := by
  have hmatched := h.matched token List.mem_cons_self (by rw [hkind]; decide)
  obtain ⟨text, size, hstring, htext⟩ := hmatched.length?_of_kind Pattern.string? (by
    rw [hkind]
    rfl)
  obtain ⟨body, htake, hopen⟩ := string?_eq_some hstring
  have hreturn := h.noReturn token List.mem_cons_self
  rw [htake] at htext
  rw [htext] at hreturn
  exact ⟨body, htext, hopen, fun hmember => hreturn (by simp [hmember])⟩

namespace Grammar

variable {workspace : Workspace} {tokens : List Token}

/-- Some tokens that follow each other have a form. -/
def FormedWithin {α : Type} (form : List Token → α → Prop) (tokens : List Token) (made : α) : Prop :=
  ∃ inner, inner <:+: tokens ∧ form inner made

theorem FormedWithin.mono {α : Type} {form : List Token → α → Prop} {more : List Token} {made : α}
    (h : FormedWithin form tokens made) (hmore : tokens <:+: more) : FormedWithin form more made := by
  obtain ⟨inner, hinner, hform⟩ := h
  exact ⟨inner, hinner.trans hmore, hform⟩

def IsMarkedType (workspace : Workspace) (tokens : List Token) (type : TypeExpr) : Prop :=
  ∃ mark inner, tokens = mark :: inner ∧ OpensType mark.kind ∧ IsType workspace inner type

theorem IsType.behind {inner : List Token} {type : TypeExpr} (h : IsType workspace inner type)
    {mark : Token} (hmark : OpensType mark.kind) (more : List Token) :
    FormedWithin (IsMarkedType workspace) (mark :: (inner ++ more)) type :=
  ⟨mark :: inner, (List.prefix_append (mark :: inner) more).isInfix, mark, inner, rfl, hmark, h⟩

/-- Elements stand behind the mark in front of the first one, or behind
semicolons. -/
theorem AreElements.within {isTuple : Bool} {elements : List TypeExpr}
    (h : AreElements workspace tokens isTuple elements) {mark : Token}
    (hmark : OpensType mark.kind) :
    ∀ element ∈ elements, FormedWithin (IsMarkedType workspace) (mark :: tokens) element := by
  induction elements generalizing tokens mark isTuple with
  | nil => exact nofun
  | cons element rest ih =>
      cases h with
      | last helement =>
          have hfirst := helement.behind hmark []
          rw [List.append_nil] at hfirst
          exact List.forall_mem_singleton.2 hfirst
      | @cons first others semicolon _ _ _ helement hsemicolon hrest =>
          refine List.forall_mem_cons.2 ⟨helement.behind hmark _, fun other hother => ?_⟩
          have hsuffix : semicolon :: others <:+: mark :: (first ++ semicolon :: others) :=
            (List.suffix_append (mark :: first) (semicolon :: others)).isInfix
          exact (ih hrest (by rw [hsemicolon]; decide) other hother).mono hsuffix

theorem AreFields.within {inObjectType : Bool} {fields : List (Field TypeExpr)}
    (h : AreFields workspace inObjectType tokens fields) :
    ∀ field ∈ fields, FormedWithin (IsField workspace inObjectType) tokens field := by
  induction fields generalizing tokens with
  | nil => exact nofun
  | cons field rest ih =>
      cases h with
      | @cons _ first others _ _ hfield hrest =>
          refine List.forall_mem_cons.2 ⟨⟨first, (List.prefix_append _ _).isInfix, hfield⟩, ?_⟩
          intro other hother
          exact (ih hrest other hother).mono (List.suffix_append _ _).isInfix

theorem IsField.type_within {inObjectType : Bool} {field : Field TypeExpr}
    (h : IsField workspace inObjectType tokens field) :
    field.type = .any ∨ FormedWithin (IsMarkedType workspace) tokens field.type := by
  cases h with
  | @intro _ isOptional key semicolon mark typeTokens value type default _ _ htype _ _ =>
      cases htype with
      | missing => exact .inl rfl
      | @present colon inner _ hcolon htype =>
          refine .inr ⟨colon :: inner, ⟨key :: mark, value ++ [semicolon], by simp⟩, colon, inner,
            rfl, ?_, htype⟩
          rw [hcolon]
          decide

/-- The parts of a type stand behind marks in its tokens, but for those that are
not written. -/
theorem IsType.parts_within {type : TypeExpr} (h : IsType workspace tokens type) :
    ∀ part ∈ type.parts, part = .any ∨ FormedWithin (IsMarkedType workspace) tokens part := by
  cases h with
  | name | text | array => exact nofun
  | arrayOf hopening helement =>
      refine List.forall_mem_singleton.2 (.inr (helement.behind ?_ _))
      rw [hopening]
      decide
  | @tuple opening closing inner elements hopening helements =>
      intro element helement
      have hmark : OpensType opening.kind := by
        rw [hopening]
        decide
      have hinside : opening :: inner <:+: opening :: (inner ++ [closing]) :=
        (List.prefix_append (opening :: inner) [closing]).isInfix
      exact .inr ((helements.within hmark element helement).mono hinside)
  | @object opening closing inner fields hopening hfields =>
      intro part hpart
      obtain ⟨field, hfield, rfl⟩ := List.mem_map.1 hpart
      obtain ⟨own, hown, hform⟩ := hfields.within field hfield
      have hinside : own <:+: opening :: (inner ++ [closing]) :=
        hown.trans ⟨[opening], [closing], by simp⟩
      exact hform.type_within.imp_right fun htype => htype.mono hinside

/-- So do its parts at all depths. -/
theorem IsMarkedType.contains_within {type part : TypeExpr}
    (h : FormedWithin (IsMarkedType workspace) tokens type) (hpart : type.Contains part) :
    part = .any ∨ FormedWithin (IsMarkedType workspace) tokens part := by
  induction hpart with
  | refl => exact .inr h
  | tail _ hlast ih =>
      rcases ih with rfl | ⟨_, hinside, mark, inner, rfl, hmark, hform⟩
      · cases hlast
      · have hinner : inner <:+: tokens := (List.suffix_cons mark inner).isInfix.trans hinside
        exact (hform.parts_within _ hlast).imp_right fun htype => htype.mono hinner

/-- A type with the mark in front of it is legible by itself: its name was cut
off as a name, or its string as a string. -/
theorem IsMarkedType.ownLegible {type : TypeExpr} (h : IsMarkedType workspace tokens type)
    (htokens : AreCut tokens) : type.OwnLegible := by
  obtain ⟨mark, inner, rfl, hmark, hform⟩ := h
  have hinner : AreCut inner := htokens.part (List.suffix_cons mark inner).isInfix
  cases hform with
  | name hkind => exact htokens.isFreeName hmark hkind
  | @text token hkind =>
      obtain ⟨body, htext, hbody⟩ := hinner.staysOpen hkind
      simpa [TypeExpr.OwnLegible, htext, Text.unquoted_quotes] using hbody
  | array | arrayOf => trivial
  | tuple _ helements =>
      cases helements
      exact List.cons_ne_nil _ _
  | @object opening closing inside fields _ hfields hsome =>
      refine ⟨hsome, fun field hfield => ?_⟩
      obtain ⟨own, hown, hfieldForm⟩ := hfields.formedIn field hfield
      exact (hfieldForm.formedIn.1).isIdentifier fun token htoken => hinner.matched token (by
        simp [hown htoken])

end Grammar

theorem TypeExpr.legible_any : any.Legible := by
  intro part hpart
  rcases hpart.cases_head with rfl | ⟨_, hfirst, _⟩
  · have hname : longestMatch none "Any".toList = some (.ident, 3) := by decide +kernel
    have hclear : IsClear none := by decide
    exact isFreeName_of_longestMatch hclear hname
  · cases hfirst

/-- A type among the tokens of a source is legible at all depths, since each of
its parts stands behind a mark as well. -/
theorem Grammar.IsMarkedType.legible {workspace : Workspace} {tokens : List Token}
    {type : TypeExpr} (h : FormedWithin (IsMarkedType workspace) tokens type)
    (htokens : AreCut tokens) : type.Legible := by
  intro part hpart
  rcases IsMarkedType.contains_within h hpart with rfl | ⟨inner, hinner, hform⟩
  · exact TypeExpr.legible_any.own
  · exact hform.ownLegible (htokens.part hinner)

namespace Grammar

variable {workspace : Workspace} {tokens : List Token}

theorem IsField.legible {inObjectType : Bool} {field : Field TypeExpr}
    (h : IsField workspace inObjectType tokens field) (htokens : AreCut tokens) :
    field.type.Legible := by
  rcases h.type_within with hany | htype
  · rw [hany]
    exact TypeExpr.legible_any
  · exact IsMarkedType.legible htype htokens

theorem IsClass.field_within {decl : ClassDecl} (h : IsClass workspace tokens decl) :
    ∀ field ∈ decl.fields, FormedWithin (IsField workspace false) tokens field := by
  cases h with
  | @intro mark name opening closing semicolon parameterTokens baseTokens mixinTokens fieldTokens
      _ _ _ fields _ _ _ _ _ _ hfields =>
      intro field hfield
      refine (hfields.within field hfield).mono
        ⟨mark :: name :: (parameterTokens ++ (baseTokens ++ (mixinTokens ++ [opening]))),
          [closing, semicolon], ?_⟩
      simp

theorem IsModule.class_within {aliasEnd : AliasEnd} {module : Module}
    (h : IsModule aliasEnd workspace tokens module) :
    ∀ decl ∈ module.classes, FormedWithin (IsClass workspace) tokens decl := by
  induction h with
  | exported => exact nofun
  | @imported tokens rest _ _ _ _ ih | @used tokens rest _ _ _ _ ih =>
      exact fun decl hdecl => (ih decl hdecl).mono (List.suffix_append tokens rest).isInfix
  | @declared tokens rest first _ hfirst _ ih =>
      refine List.forall_mem_cons.2 ⟨⟨tokens, (List.prefix_append tokens rest).isInfix, hfirst⟩, ?_⟩
      exact fun decl hdecl => (ih decl hdecl).mono (List.suffix_append tokens rest).isInfix
  | @loose tokens rest semicolon _ _ _ _ _ ih =>
      refine fun decl hdecl => (ih decl hdecl).mono ?_
      exact (List.suffix_cons semicolon rest).isInfix.trans (List.suffix_append tokens _).isInfix

end Grammar

/-- The types of all fields in a module that is read from a text are legible. -/
theorem Module.types_legible {workspace : Workspace} {source : String} {lexed : Lexed}
    {module : Module} (hlex : lex source = .ok lexed)
    (hmodule : Module.ofTokens workspace lexed.tokens = .ok module) :
    ∀ decl ∈ module.classes, ∀ field ∈ decl.fields, field.type.Legible := by
  intro decl hdecl field hfield
  have hform := Module.ofTokens_eq_ok_iff.1 hmodule
  have htokens : AreCut (beforeEnd lexed.tokens) :=
    (areCut_of_lex hlex).part (List.takeWhile_prefix _).isInfix
  obtain ⟨own, hown, hclass⟩ := hform.class_within decl hdecl
  obtain ⟨inner, hinner, hfieldForm⟩ := hclass.field_within field hfield
  exact hfieldForm.legible (htokens.part (hinner.trans hown))

end ConfigNotation
