import ConfigNotation.Proofs.Syntax.Sound
import ConfigNotation.Proofs.Token.Names

/-!
What holds of every module that is read from a text: the kind of a container tells what its
members are, paths lead somewhere, types in brackets are not empty, only the last parameter
takes the rest, and a conditional is not an operand of another one.
-/

namespace ConfigNotation

open Grammar

/-- The kind of a container tells whether it has members with keys, members with
places, or only spreads. -/
structure Container.WellFormed (body : Container Expr) : Prop where
  object : body.kind = .object ↔ ∃ key value, Member.property key value ∈ body.members
  array : body.kind = .array ↔ ∃ value, Member.element value ∈ body.members
  unknown : body.kind = .unknown ↔ ∀ member ∈ body.members, ∃ value, member = .spread value
  unmixed : ∀ key value, Member.property key value ∈ body.members →
    ∀ other, Member.element other ∉ body.members

def Expr.IsConditional : Expr → Prop
  | conditional .. => True
  | _ => False

/-- An expression by itself is well formed, without its parts. -/
def Expr.OwnFormed : Expr → Prop
  | path _ segments => 2 ≤ segments.length ∧ ∀ segment ∈ segments, segment ≠ ""
  | container _ body | classInstance _ _ body => body.WellFormed
  | conditional _ left right => ¬left.IsConditional ∧ ¬right.IsConditional
  | _ => True

def Expr.WellFormed (expr : Expr) : Prop := ∀ part, expr.Contains part → part.OwnFormed

/-- A type that is well formed at all depths, with the defaults of its fields. -/
inductive TypeExpr.WellFormed : TypeExpr → Prop where
  | reference (name : String) : WellFormed (.reference name)
  | literal (body : String) : WellFormed (.literal body)
  | array : WellFormed .array
  | arrayOf {element : TypeExpr} (helement : WellFormed element) : WellFormed (.arrayOf element)
  | tuple {elements : List TypeExpr} (hsome : elements ≠ [])
      (helements : ∀ element ∈ elements, WellFormed element) : WellFormed (.tuple elements)
  | object {fields : List (Field TypeExpr)} (hsome : fields ≠ [])
      (htypes : ∀ field ∈ fields, WellFormed field.type)
      (hdefaults : ∀ field ∈ fields, ∀ default ∈ field.default, default.WellFormed) :
      WellFormed (.object fields)

structure Field.WellFormed (field : Field TypeExpr) : Prop where
  type : field.type.WellFormed
  default : ∀ default ∈ field.default, default.WellFormed

/-- A class whose parameters before the last one take one argument each. -/
structure ClassDecl.WellFormed (decl : ClassDecl) : Prop where
  parameters : ∀ parameter ∈ decl.parameters.dropLast, parameter.isRest = false
  fields : ∀ field ∈ decl.fields, field.WellFormed

/-- A name that is bound to what a path leads to, which has a segment, and none
that is empty. -/
structure Leaf.WellFormed (leaf : Leaf) : Prop where
  path : leaf.path ≠ []
  segments : ∀ segment ∈ leaf.path, segment ≠ ""

def Binding.WellFormed : Binding → Prop
  | name _ => True
  | pattern leaves => ∀ leaf ∈ leaves, leaf.WellFormed

structure Module.WellFormed (module : Module) : Prop where
  imports : ∀ statement ∈ module.imports, statement.binding.WellFormed
  uses : ∀ statement ∈ module.uses,
    statement.value.WellFormed ∧ statement.binding.WellFormed
  classes : ∀ decl ∈ module.classes, decl.WellFormed
  body : module.body.WellFormed

theorem Expr.WellFormed.parts {expr : Expr} (h : expr.WellFormed) :
    ∀ part ∈ expr.parts, part.WellFormed :=
  fun _ hpart inner hinner => h inner (.head hpart hinner)

theorem Expr.WellFormed.own {expr : Expr} (h : expr.WellFormed) : expr.OwnFormed := h expr .refl

section

variable {workspace : Workspace} {tokens : List Token}

theorem Grammar.FixesKind.wellFormed {members : List (Member Expr)} {kind : ContainerKind}
    (h : FixesKind members kind) : (⟨kind, members⟩ : Container Expr).WellFormed := by
  have hproperty {key : String} {value : Expr} (hmem : .property key value ∈ members) :
      kind = .object := by
    obtain hnone | hkind := h.same _ hmem
    · cases hnone
    · exact hkind.symm
  have helement {value : Expr} (hmem : .element value ∈ members) : kind = .array := by
    obtain hnone | hkind := h.same _ hmem
    · cases hnone
    · exact hkind.symm
  -- a kind that is known is that of some member
  have hsome (hkind : kind ≠ .unknown) : ∃ member ∈ members, memberKind member = kind :=
    h.fixed.resolve_left hkind
  constructor
  · constructor
    · rintro rfl
      obtain ⟨member, hmem, hkind⟩ := hsome nofun
      cases member with
      | property key value => exact ⟨key, value, hmem⟩
      | element | spread => cases hkind
    · exact fun ⟨_, _, hmem⟩ => hproperty hmem
  · constructor
    · rintro rfl
      obtain ⟨member, hmem, hkind⟩ := hsome nofun
      cases member with
      | element value => exact ⟨value, hmem⟩
      | property | spread => cases hkind
    · exact fun ⟨_, hmem⟩ => helement hmem
  · constructor
    · rintro rfl member hmem
      cases member with
      | spread value => exact ⟨value, rfl⟩
      | property => cases hproperty hmem
      | element => cases helement hmem
    · intro hspreads
      by_contra hkind
      obtain ⟨member, hmem, hfixed⟩ := hsome hkind
      obtain ⟨value, rfl⟩ := hspreads member hmem
      exact hkind hfixed.symm
  · intro key value hmem other hother
    cases (hproperty hmem).symm.trans (helement hother)

theorem Grammar.IsContainer.wellFormed {body : Container Expr}
    (h : IsContainer workspace tokens body) : body.WellFormed := by
  cases h with
  | intro _ _ hkind => exact hkind.wellFormed

/-- An operand is never a conditional: a question mark stands between two
operands and not inside of one. -/
theorem Grammar.IsOperand.not_isConditional {expr : Expr} (h : IsOperand workspace tokens expr) :
    ¬expr.IsConditional := by
  cases h <;> exact id

theorem Grammar.IsExpr.ownFormed {expr : Expr} (h : IsExpr workspace tokens expr)
    (htokens : AreMatched tokens) : expr.OwnFormed := by
  cases h with
  | conditional hleft _ hright => exact ⟨hleft.not_isConditional, hright.not_isConditional⟩
  | operand hoperand =>
      cases hoperand with
      | container hbody | classInstance _ hbody => exact hbody.wellFormed
      | @path token hkind =>
          have hmatched := htokens token List.mem_cons_self (by rw [hkind]; nofun)
          exact hmatched.pathSegments_spec hkind
      | literal | name | call => trivial

theorem AreMatched.subset {inner : List Token} (h : AreMatched tokens) (hinner : inner ⊆ tokens) :
    AreMatched inner :=
  fun token htoken => h token (hinner htoken)

/-- An expression that is formed of matched tokens is well formed at all depths,
since every part of it is formed of some of the same tokens. -/
theorem Grammar.FormedIn.wellFormed {expr : Expr}
    (h : Grammar.FormedIn (IsExpr workspace) tokens expr) (htokens : AreMatched tokens) :
    expr.WellFormed := by
  intro part hpart
  obtain ⟨inner, hinner, hform⟩ := h.contains hpart
  exact hform.ownFormed (htokens.subset hinner)

def TypeExpr.parts : TypeExpr → List TypeExpr
  | reference _ | array | literal _ => []
  | object fields => fields.map (·.type)
  | arrayOf element => [element]
  | tuple elements => elements

theorem TypeExpr.sizeOf_lt_of_mem_parts {type part : TypeExpr} (h : part ∈ type.parts) :
    sizeOf part < sizeOf type := by
  cases type with
  | reference | array | literal => cases h
  | object fields =>
      obtain ⟨field, hfield, rfl⟩ := List.mem_map.1 h
      have hsize := List.sizeOf_lt_of_mem hfield
      obtain ⟨name, type, optional, default, span⟩ := field
      rw [Field.mk.sizeOf_spec] at hsize
      rw [object.sizeOf_spec]
      dsimp only
      omega
  | arrayOf element =>
      rw [List.mem_singleton.1 h, arrayOf.sizeOf_spec]
      omega
  | tuple elements =>
      have hsize : sizeOf part < sizeOf elements := List.sizeOf_lt_of_mem h
      rw [tuple.sizeOf_spec]
      omega

/-- What holds of a type if it holds of its parts holds of all types. -/
theorem TypeExpr.parts_induction {motive : TypeExpr → Prop}
    (step : ∀ type, (∀ part ∈ type.parts, motive part) → motive type) (type : TypeExpr) :
    motive type :=
  step type fun part _ => parts_induction step part
termination_by type
decreasing_by exact sizeOf_lt_of_mem_parts ‹_›

/-- The elements of a tuple are formed of some of its tokens. -/
theorem Grammar.AreElements.formedIn {isTuple : Bool} {elements : List TypeExpr}
    (h : AreElements workspace tokens isTuple elements) :
    ∀ element ∈ elements, FormedIn (IsType workspace) tokens element := by
  induction elements generalizing tokens isTuple with
  | nil => exact nofun
  | cons element rest ih =>
      cases h with
      | last helement =>
          exact List.forall_mem_singleton.2 ⟨tokens, List.Subset.refl _, helement⟩
      | @cons first others semicolon _ _ _ helement hmark hrest =>
          refine List.forall_mem_cons.2 ⟨⟨first, List.subset_append_left _ _, helement⟩, ?_⟩
          intro other hother
          refine (ih hrest other hother).mono fun token htoken => ?_
          simp [htoken]

theorem Grammar.IsField.formedIn_type {inObjectType : Bool} {field : Field TypeExpr}
    (h : IsField workspace inObjectType tokens field) :
    field.type = .any ∨ FormedIn (IsType workspace) tokens field.type := by
  cases h with
  | intro hkey hmark htype hdefault hend =>
      cases htype with
      | missing => exact .inl rfl
      | present hcolon htype =>
          refine .inr ⟨_, fun token htoken => ?_, htype⟩
          simp [htoken]

namespace Grammar

/-- A type that is formed of matched tokens is well formed, by the derivation:
the parts of a type are derived from fewer tokens. -/
theorem IsType.wellFormed {tokens : List Token} {type : TypeExpr}
    (h : IsType workspace tokens type) (htokens : AreMatched tokens) : type.WellFormed := by
  induction type using TypeExpr.parts_induction generalizing tokens with
  | step type ih =>
      cases h with
      | name => exact .reference _
      | text => exact .literal _
      | array => exact .array
      | @arrayOf opening closing inner element _ helement =>
          have hinside : AreMatched inner := htokens.subset fun token htoken => by simp [htoken]
          exact .arrayOf (ih element List.mem_cons_self helement hinside)
      | @tuple opening closing inner elements _ helements =>
          have hinside : AreMatched inner := htokens.subset fun token htoken => by simp [htoken]
          refine .tuple ?_ fun element helement => ?_
          · cases helements
            exact List.cons_ne_nil _ _
          · obtain ⟨own, hown, hform⟩ := helements.formedIn element helement
            exact ih element helement hform (hinside.subset hown)
      | @object opening closing inner fields _ hfields hsome =>
          have hinside : AreMatched inner := htokens.subset fun token htoken => by simp [htoken]
          refine .object hsome (fun field hfield => ?_) fun field hfield default hdefault => ?_
          · obtain ⟨own, hown, hform⟩ := hfields.formedIn field hfield
            obtain hany | ⟨typeTokens, htypeTokens, htype⟩ := hform.formedIn_type
            · rw [hany]
              exact .reference _
            · exact ih field.type (List.mem_map_of_mem hfield) htype
                ((hinside.subset hown).subset htypeTokens)
          · obtain ⟨own, hown, hform⟩ := hfields.formedIn field hfield
            exact (hform.formedIn.2 default hdefault).wellFormed (hinside.subset hown)

theorem IsField.wellFormed {inObjectType : Bool} {field : Field TypeExpr}
    (h : IsField workspace inObjectType tokens field) (htokens : AreMatched tokens) :
    field.WellFormed where
  type := by
    obtain hany | ⟨typeTokens, htypeTokens, htype⟩ := h.formedIn_type
    · rw [hany]
      exact .reference _
    · exact htype.wellFormed (htokens.subset htypeTokens)
  default default hdefault := (h.formedIn.2 default hdefault).wellFormed htokens

/-- Only the last parameter can take the rest. -/
theorem AreParameters.rest_last {parameters : List Parameter}
    (h : AreParameters tokens parameters) :
    ∀ parameter ∈ parameters.dropLast, parameter.isRest = false := by
  induction h with
  | nil => exact nofun
  | @cons mark ends rest name isRest parameters hmark hname hends hlast hrest ih =>
      cases parameters with
      | nil => exact nofun
      | cons next more =>
          rw [List.dropLast_cons_cons, List.forall_mem_cons]
          refine ⟨?_, ih⟩
          cases isRest with
          | false => rfl
          | true => cases hlast rfl

/-- A class is well formed if its tokens were matched: only its last parameter
can be a rest parameter, as the grammar says, and its fields are well formed. -/
theorem IsClass.wellFormed {decl : ClassDecl} (h : IsClass workspace tokens decl)
    (htokens : AreMatched tokens) : decl.WellFormed where
  parameters := by
    cases h with
    | intro _ _ hparameters =>
        cases hparameters with
        | missing => exact nofun
        | present _ hparameters => exact hparameters.rest_last
  fields field hfield := by
    obtain ⟨own, hown, hform⟩ := h.formedIn field hfield
    exact hform.wellFormed (htokens.subset hown)

end Grammar

theorem toString_place_ne (place : Nat) : toString place ≠ "" := by
  intro hempty
  have hdigits : (toString place).toList = Nat.toDigits 10 place := by
    simp [Nat.toString_eq_repr, Nat.repr]
  rw [hempty] at hdigits
  exact Nat.toDigits_ne_nil hdigits.symm

theorem Leaf.wellFormed_single {segment : String} (h : segment ≠ "") (name : String) :
    Leaf.WellFormed ⟨[segment], name⟩ where
  path := List.cons_ne_nil _ _
  segments := List.forall_mem_singleton.2 h

/-- The path of a leaf stays one of names when it is reached from further out. -/
theorem Leaf.wellFormed_under {segment : String} (h : segment ≠ "") {leaves : List Leaf}
    (hleaves : ∀ leaf ∈ leaves, leaf.WellFormed) :
    ∀ leaf ∈ leaves.map (Leaf.under segment), leaf.WellFormed := by
  refine List.forall_mem_map.2 fun leaf hleaf => ⟨List.cons_ne_nil _ _, ?_⟩
  exact List.forall_mem_cons.2 ⟨h, (hleaves leaf hleaf).segments⟩

def AreNamed (tokens : List Token) : Prop :=
  ∀ token ∈ tokens, token.kind = .ident → token.text ≠ ""

theorem AreMatched.areNamed (h : AreMatched tokens) : AreNamed tokens := by
  intro token htoken hkind hempty
  have hidentifier := (h token htoken (by rw [hkind]; decide)).isIdentifier_text hkind
  rw [hempty] at hidentifier
  cases hidentifier

namespace Grammar

variable {aliasEnd : AliasEnd}

mutual

/-- The leaves of a group have paths that are not empty and hold no empty name.
Groups and entries are treated together, as they are derived. -/
theorem IsGroup.wellFormed {tokens : List Token} {leaves : List Leaf}
    (h : IsGroup aliasEnd tokens leaves) (htokens : AreNamed tokens) :
    ∀ leaf ∈ leaves, leaf.WellFormed := by
  match h with
  | .intro hopening hentries hclosing =>
      exact hentries.wellFormed fun token htoken => htokens token (by simp [htoken])
termination_by structural h

theorem AreEntries.wellFormed {place : Nat} {tokens : List Token} {leaves : List Leaf}
    (h : AreEntries aliasEnd place tokens leaves) (htokens : AreNamed tokens) :
    ∀ leaf ∈ leaves, leaf.WellFormed := by
  match h with
  | .nil _ => exact nofun
  | .name hname hends hrest =>
      refine List.forall_mem_cons.2 ⟨Leaf.wellFormed_single (toString_place_ne _) _, ?_⟩
      exact hrest.wellFormed fun token htoken => htokens token (by simp [htoken])
  | .empty hend hrest => exact hrest.wellFormed fun token htoken => htokens token (by simp [htoken])
  | .skip hword hends hrest =>
      exact hrest.wellFormed fun token htoken => htokens token (by simp [htoken])
  | .group hgroup hends hrest =>
      have hinner := hgroup.wellFormed fun token htoken =>
        htokens token (List.mem_append_left _ htoken)
      refine List.forall_mem_append.2 ⟨Leaf.wellFormed_under (toString_place_ne _) hinner, ?_⟩
      exact hrest.wellFormed fun token htoken => htokens token (by simp [htoken])
  | .keyedName hkey harrow hname hends hwritten hrest =>
      have hsegment := htokens _ List.mem_cons_self hkey
      refine List.forall_mem_cons.2 ⟨Leaf.wellFormed_single hsegment _, ?_⟩
      exact hrest.wellFormed fun token htoken => htokens token (by simp [htoken])
  | .keyedGroup hkey harrow hgroup hends hrest =>
      have hsegment := htokens _ List.mem_cons_self hkey
      have hinner := hgroup.wellFormed fun token htoken => htokens token (by simp [htoken])
      refine List.forall_mem_append.2 ⟨Leaf.wellFormed_under hsegment hinner, ?_⟩
      exact hrest.wellFormed fun token htoken => htokens token (by simp [htoken])
termination_by structural h

end

theorem IsBinding.wellFormed {binding : Binding} (h : IsBinding aliasEnd tokens binding)
    (htokens : AreNamed tokens) : binding.WellFormed := by
  cases h with
  | name => trivial
  | pattern hgroup => exact hgroup.wellFormed htokens

theorem IsImport.wellFormed {statement : Import} (h : IsImport aliasEnd workspace tokens statement)
    (htokens : AreNamed tokens) : statement.binding.WellFormed := by
  cases h with
  | binding hmark hsource has hbinding hend =>
      exact hbinding.wellFormed fun token htoken => htokens token (by simp [htoken])
  | pattern hmark hgroup hfrom hsource hend =>
      exact hgroup.wellFormed fun token htoken => htokens token (by simp [htoken])

theorem IsUse.wellFormed {statement : Use} (h : IsUse aliasEnd workspace tokens statement)
    (htokens : AreNamed tokens) : statement.binding.WellFormed := by
  cases h with
  | binding hmark hvalue has hbinding hend =>
      exact hbinding.wellFormed fun token htoken => htokens token (by simp [htoken])
  | pattern hmark hgroup hsome hfrom hvalue hend =>
      exact hgroup.wellFormed fun token htoken => htokens token (by simp [htoken])

end Grammar

/-- A module that is formed of matched tokens is well formed in all of its
statements. No claim is made about a module that was put together in another
way. -/
theorem Module.FormedIn.wellFormed {aliasEnd : AliasEnd} {module : Module}
    (h : module.FormedIn aliasEnd workspace tokens) (htokens : AreMatched tokens) :
    module.WellFormed where
  imports statement hstatement := by
    obtain ⟨inner, hinner, hform⟩ := h.imports statement hstatement
    exact hform.wellFormed (htokens.subset hinner).areNamed
  uses statement hstatement := by
    obtain ⟨inner, hinner, hform⟩ := h.uses statement hstatement
    have hinside := htokens.subset hinner
    exact ⟨hform.formedIn.wellFormed hinside, hform.wellFormed hinside.areNamed⟩
  classes decl hdecl := by
    obtain ⟨inner, hinner, hform⟩ := h.classes decl hdecl
    exact hform.wellFormed (htokens.subset hinner)
  body := h.body.wellFormed htokens

/-- A module that is read from the tokens of a text is well formed everywhere. -/
theorem Module.wellFormed_of_ofTokens {source : String} {lexed : Lexed} {module : Module}
    (hlex : lex source = .ok lexed)
    (hmodule : Module.ofTokens workspace lexed.tokens = .ok module) : module.WellFormed := by
  have hform := (Module.ofTokens_eq_ok_iff.1 hmodule).formedIn
  exact (hform.mono (List.takeWhile_subset _)).wellFormed (lex_matched hlex)

end

end ConfigNotation
