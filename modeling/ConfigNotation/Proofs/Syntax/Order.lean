import ConfigNotation.Proofs.Syntax.Modules
import ConfigNotation.Proofs.Syntax.Parts

/-!
The order in which the parts of a module are written. The parts of an expression, the
defaults of a class and the statements of each sort are formed of runs of tokens, and each
run stands behind the one before.
-/

namespace ConfigNotation

open Grammar

/-- Things that are formed of runs of tokens, one run behind the other. Before,
between and behind the runs other tokens may stand. -/
inductive Grammar.InOrder {α : Type} (form : List Token → α → Prop) :
    List Token → List α → Prop where
  | nil (tokens : List Token) : InOrder form tokens []
  | cons (before : List Token) {own rest : List Token} {made : α} {others : List α}
      (hown : form own made) (hrest : InOrder form rest others) :
      InOrder form (before ++ (own ++ rest)) (made :: others)

namespace Grammar.InOrder

variable {α : Type} {form : List Token → α → Prop} {tokens first second own : List Token}
  {made others : List α}

theorem behind (before : List Token) (h : InOrder form tokens made) :
    InOrder form (before ++ tokens) made := by
  cases h with
  | nil => exact .nil _
  | cons between hown hrest =>
      rw [← List.append_assoc]
      exact .cons (before ++ between) hown hrest

/-- Things that are formed in order in two parts are formed in order in both
together. -/
theorem append (hfirst : InOrder form first made) (hsecond : InOrder form second others) :
    InOrder form (first ++ second) (made ++ others) := by
  induction hfirst with
  | nil => exact hsecond.behind _
  | cons before hown _ ih =>
      rw [List.append_assoc, List.append_assoc]
      exact .cons before hown ih

theorem inFrontOf (h : InOrder form tokens made) (behind : List Token) :
    InOrder form (tokens ++ behind) made := by
  simpa using h.append (.nil behind)

theorem single {value : α} (hown : form own value) : InOrder form own [value] := by
  simpa using InOrder.cons [] hown (.nil [])

/-- Each thing is formed of tokens that stand side by side. -/
theorem exists_infix (h : InOrder form tokens made) :
    ∀ value ∈ made, ∃ own, own <:+: tokens ∧ form own value := by
  induction h with
  | nil => exact nofun
  | @cons before own rest value others hown _ ih =>
      refine List.forall_mem_cons.2 ⟨⟨own, ⟨before, rest, List.append_assoc ..⟩, hown⟩, ?_⟩
      intro other hother
      obtain ⟨inner, hinner, hform⟩ := ih other hother
      refine ⟨inner, hinner.trans ?_, hform⟩
      exact (List.suffix_append own rest).isInfix.trans (List.suffix_append before _).isInfix

end Grammar.InOrder

namespace TypeExpr

mutual

/-- The defaults that are written in a type, at whatever depth, in the order of
the text. -/
def defaults : TypeExpr → List Expr
  | object fields => fieldDefaults fields
  | arrayOf element => element.defaults
  | tuple elements => elementDefaults elements
  | _ => []

/-- The defaults in the types of fields, each in front of the one that its field
has. -/
def fieldDefaults : List (Field TypeExpr) → List Expr
  | [] => []
  | ⟨_, type, _, default, _⟩ :: rest => type.defaults ++ (default.toList ++ fieldDefaults rest)

def elementDefaults : List TypeExpr → List Expr
  | [] => []
  | element :: rest => element.defaults ++ elementDefaults rest

end

end TypeExpr

/-- The expressions that are written in a class, in the order of the text. -/
def ClassDecl.defaults (decl : ClassDecl) : List Expr := TypeExpr.fieldDefaults decl.fields

/-- The expressions that a module has outside of other ones. -/
def Module.expressions (module : Module) : List Expr :=
  module.uses.map (·.value) ++ (module.classes.flatMap (·.defaults) ++ [module.body])

section

variable {workspace : Workspace} {tokens : List Token}

theorem Grammar.AreMembers.inOrder {members : List (Member Expr)}
    (h : AreMembers workspace tokens members) :
    InOrder (IsExpr workspace) tokens (members.map (·.value)) := by
  induction members generalizing tokens with
  | nil => exact .nil tokens
  | cons member rest ih =>
      cases h with
      | @property key arrow semicolon _ _ _ _ _ _ hvalue _ hrest
      | @element key arrow semicolon _ _ _ _ _ _ hvalue _ hrest =>
          exact .cons [key, arrow] hvalue ((ih hrest).behind [semicolon])
      | @spread mark semicolon _ _ _ _ _ hvalue _ hrest =>
          exact .cons [mark] hvalue ((ih hrest).behind [semicolon])

theorem Grammar.AreArguments.inOrder {arguments : List (Argument Expr)}
    (h : AreArguments workspace tokens arguments) :
    InOrder (IsExpr workspace) tokens (arguments.map (·.value)) := by
  induction arguments generalizing tokens with
  | nil => exact .nil tokens
  | cons argument rest ih =>
      cases h with
      | @cons mark _ ends _ _ _ _ _ hvalue _ hrest =>
          exact .cons mark hvalue ((ih hrest).behind ends)

/-- The values of members are formed one behind the other, between keys, arrows
and marks that belong to none of them. -/
theorem Grammar.IsContainer.inOrder {body : Container Expr}
    (h : IsContainer workspace tokens body) :
    InOrder (IsExpr workspace) tokens (body.members.map (·.value)) := by
  cases h with
  | @intro opening closing _ _ _ _ hmembers =>
      exact (hmembers.inOrder.inFrontOf [closing]).behind [opening]

/-- The parts of an expression are formed of its tokens, one behind the other. -/
theorem Grammar.IsExpr.inOrder {expr : Expr} (h : IsExpr workspace tokens expr) :
    InOrder (IsExpr workspace) tokens expr.parts := by
  cases h with
  | conditional hleft _ hright =>
      exact .cons [] (.operand hleft) ((InOrder.single (.operand hright)).behind [_])
  | operand hoperand =>
      cases hoperand with
      | literal | path | name => exact .nil _
      | container hbody => exact hbody.inOrder
      | @classInstance name _ _ _ hbody => exact hbody.inOrder.behind [name]
      | @call name opening closing _ _ _ _ harguments =>
          exact (harguments.inOrder.inFrontOf [closing]).behind [name, opening]

theorem Grammar.IsDefault.inOrder {inObjectType : Bool} {default : Option Expr}
    (h : IsDefault workspace inObjectType tokens default) :
    InOrder (IsExpr workspace) tokens default.toList := by
  cases h with
  | missing => exact .nil []
  | @present mark _ _ _ hvalue => exact (InOrder.single hvalue).behind [mark]

namespace Grammar

mutual

/-- The defaults in a type stand in the order in which they are listed, at
whatever depth they are. -/
theorem IsType.inOrder {tokens : List Token} {type : TypeExpr} (h : IsType workspace tokens type) :
    InOrder (IsExpr workspace) tokens type.defaults := by
  match h with
  | .name _ | .text _ | .array _ _ => exact .nil _
  | @IsType.object _ opening closing _ _ _ hfields _ _ =>
      exact (hfields.inOrder.inFrontOf [closing]).behind [opening]
  | @IsType.arrayOf _ opening closing _ _ _ helement _ =>
      exact (helement.inOrder.inFrontOf [closing]).behind [opening]
  | @IsType.tuple _ opening closing _ _ _ helements _ =>
      exact (helements.inOrder.inFrontOf [closing]).behind [opening]
termination_by structural h

theorem AreElements.inOrder {tokens : List Token} {isTuple : Bool} {elements : List TypeExpr}
    (h : AreElements workspace tokens isTuple elements) :
    InOrder (IsExpr workspace) tokens (TypeExpr.elementDefaults elements) := by
  match h with
  | .nil => exact .nil []
  | .last helement => simpa [TypeExpr.elementDefaults] using helement.inOrder
  | @AreElements.cons _ _ _ semicolon _ _ _ helement _ hrest =>
      exact helement.inOrder.append (hrest.inOrder.behind [semicolon])
termination_by structural h

theorem IsFieldType.inOrder {tokens : List Token} {type : TypeExpr}
    (h : IsFieldType workspace tokens type) :
    InOrder (IsExpr workspace) tokens type.defaults := by
  match h with
  | .missing => exact .nil []
  | @IsFieldType.present _ colon _ _ _ htype => exact htype.inOrder.behind [colon]
termination_by structural h

theorem IsField.inOrder {inObjectType : Bool} {tokens : List Token} {field : Field TypeExpr}
    (h : IsField workspace inObjectType tokens field) :
    InOrder (IsExpr workspace) tokens (field.type.defaults ++ field.default.toList) := by
  match h with
  | @IsField.intro _ _ _ key semicolon mark _ _ _ _ _ _ htype hdefault _ =>
      exact ((htype.inOrder.append (hdefault.inOrder.inFrontOf [semicolon])).behind mark).behind
        [key]
termination_by structural h

theorem AreFields.inOrder {inObjectType : Bool} {tokens : List Token}
    {fields : List (Field TypeExpr)} (h : AreFields workspace inObjectType tokens fields) :
    InOrder (IsExpr workspace) tokens (TypeExpr.fieldDefaults fields) := by
  match h with
  | .nil => exact .nil []
  | @AreFields.cons _ _ _ _ field _ hfield hrest =>
      have hall := hfield.inOrder.append hrest.inOrder
      rwa [List.append_assoc] at hall
termination_by structural h

end

end Grammar

/-- The defaults of a class are formed in order: those in the type of a field in
front of its own. -/
theorem Grammar.IsClass.inOrder {decl : ClassDecl} (h : IsClass workspace tokens decl) :
    InOrder (IsExpr workspace) tokens decl.defaults := by
  cases h with
  | @intro mark name opening closing semicolon parameters base mixins _ _ _ _ _ _ _ _ _ _ _
      hfields =>
      have hbody := (hfields.inOrder.inFrontOf [closing, semicolon]).behind [opening]
      exact (((hbody.behind mixins).behind base).behind parameters).behind [mark, name]

theorem Grammar.IsUse.inOrder {aliasEnd : AliasEnd} {statement : Use}
    (h : IsUse aliasEnd workspace tokens statement) :
    InOrder (IsExpr workspace) tokens [statement.value] := by
  cases h with
  | @binding mark _ _ valueTokens _ value _ _ hvalue =>
      have hexpr : InOrder (IsExpr workspace) valueTokens [value] := by
        cases hvalue with
        | operand _ hoperand => exact .single (.operand hoperand)
        | expr _ hexpr => exact .single hexpr
      exact (hexpr.inFrontOf _).behind [mark]
  | @pattern mark fromWord _ group _ _ _ _ _ _ _ hvalue =>
      exact ((((InOrder.single hvalue).inFrontOf _).behind [fromWord]).behind group).behind [mark]

/-- A module of which the statements of each sort, and the exported expression,
are formed of some tokens in this order. -/
structure Module.InOrder (aliasEnd : AliasEnd) (workspace : Workspace) (tokens : List Token)
    (module : Module) : Prop where
  imports : Grammar.InOrder (IsImport aliasEnd workspace) tokens module.imports
  uses : Grammar.InOrder (IsUse aliasEnd workspace) tokens module.uses
  classes : Grammar.InOrder (IsClass workspace) tokens module.classes
  body : Grammar.InOrder (IsExpr workspace) tokens [module.body]

theorem Module.InOrder.behind {aliasEnd : AliasEnd} {module : Module}
    (h : module.InOrder aliasEnd workspace tokens) (before : List Token) :
    module.InOrder aliasEnd workspace (before ++ tokens) :=
  ⟨h.imports.behind before, h.uses.behind before, h.classes.behind before, h.body.behind before⟩

/-- The statements of a module are formed in order and none overlaps another
one, by induction over the statements. -/
theorem Grammar.IsModule.inOrder {aliasEnd : AliasEnd} {module : Module}
    (h : IsModule aliasEnd workspace tokens module) :
    module.InOrder aliasEnd workspace tokens := by
  induction h with
  | @exported mark _ _ _ _ hbody =>
      exact ⟨.nil _, .nil _, .nil _, ((InOrder.single hbody).inFrontOf _).behind [mark]⟩
  | @imported own _ _ _ hfirst _ ih =>
      exact { ih.behind own with imports := .cons [] hfirst ih.imports }
  | @used own _ _ _ hfirst _ ih =>
      exact { ih.behind own with uses := .cons [] hfirst ih.uses }
  | @declared own _ _ _ hfirst _ ih =>
      exact { ih.behind own with classes := .cons [] hfirst ih.classes }
  | @loose own _ semicolon _ _ _ _ _ ih =>
      exact (ih.behind [semicolon]).behind own

/-- Every expression of a module is formed of tokens that stand side by side. -/
theorem Module.InOrder.exists_infix {aliasEnd : AliasEnd} {module : Module}
    (h : module.InOrder aliasEnd workspace tokens) :
    ∀ expr ∈ module.expressions, ∃ own, own <:+: tokens ∧ IsExpr workspace own expr := by
  -- an expression in a statement stands where the statement does
  have hinside {inner : List Token} {exprs : List Expr} (hinner : inner <:+: tokens)
      (horder : Grammar.InOrder (IsExpr workspace) inner exprs) :
      ∀ expr ∈ exprs, ∃ own, own <:+: tokens ∧ IsExpr workspace own expr := by
    intro expr hexpr
    obtain ⟨own, hown, hform⟩ := horder.exists_infix expr hexpr
    exact ⟨own, hown.trans hinner, hform⟩
  refine List.forall_mem_append.2 ⟨?_, List.forall_mem_append.2 ⟨?_, h.body.exists_infix⟩⟩
  · refine List.forall_mem_map.2 fun statement hstatement => ?_
    obtain ⟨own, hown, hform⟩ := h.uses.exists_infix statement hstatement
    exact hinside hown hform.inOrder _ List.mem_cons_self
  · intro expr hexpr
    obtain ⟨decl, hdecl, hdefault⟩ := List.mem_flatMap.1 hexpr
    obtain ⟨own, hown, hform⟩ := h.classes.exists_infix decl hdecl
    exact hinside hown hform.inOrder expr hdefault

end

end ConfigNotation
