import ConfigNotation.Proofs.Syntax.Modules
import ConfigNotation.Proofs.Syntax.Parts

/-!
The tokens that the parts of a module are formed of. Its statements, their expressions at
whatever depth and the fields of its classes are formed of some of the tokens of the module.
-/

namespace ConfigNotation

open ConfigNotation.Parser Grammar

/-- Some of a number of tokens have a form, which makes them one thing. -/
def Grammar.FormedIn {α : Type} (form : List Token → α → Prop) (tokens : List Token) (made : α) :
    Prop :=
  ∃ inner, inner ⊆ tokens ∧ form inner made

/-- What is formed of some tokens is formed of more tokens as well. -/
theorem Grammar.FormedIn.mono {α : Type} {form : List Token → α → Prop} {tokens more : List Token}
    {made : α} (h : FormedIn form tokens made) (hmore : tokens ⊆ more) :
    FormedIn form more made := by
  obtain ⟨inner, hinner, hform⟩ := h
  exact ⟨inner, List.Subset.trans hinner hmore, hform⟩

/-- A key of a container or of a class is the name of one of some tokens. -/
def Grammar.KeyIn (tokens : List Token) (key : String) : Prop :=
  ∃ token ∈ tokens, token.kind = .assocKey ∧ key = keyName token

theorem Grammar.KeyIn.mono {tokens more : List Token} {key : String} (h : KeyIn tokens key)
    (hmore : tokens ⊆ more) : KeyIn more key := by
  obtain ⟨token, htoken, hkey⟩ := h
  exact ⟨token, hmore htoken, hkey⟩

def Member.key? : Member Expr → Option String
  | property key _ => some key
  | element _ | spread _ => none

section

variable {workspace : Workspace}

theorem Grammar.AreMembers.formedIn {tokens : List Token} {members : List (Member Expr)}
    (h : AreMembers workspace tokens members) :
    ∀ member ∈ members, FormedIn (IsExpr workspace) tokens member.value ∧
      ∀ key ∈ member.key?, KeyIn tokens key := by
  induction members generalizing tokens with
  | nil => exact nofun
  | cons member rest ih =>
      -- what is formed of a part of the tokens is formed of all of them
      suffices h : (FormedIn (IsExpr workspace) tokens member.value ∧
          ∀ key ∈ member.key?, KeyIn tokens key) ∧
          ∃ others, others ⊆ tokens ∧ AreMembers workspace others rest by
        obtain ⟨hmember, others, hothers, hrest⟩ := h
        refine List.forall_mem_cons.2 ⟨hmember, fun other hother => ?_⟩
        obtain ⟨hvalue, hkey⟩ := ih hrest other hother
        exact ⟨hvalue.mono hothers, fun key hsome => (hkey key hsome).mono hothers⟩
      cases h with
      | property hmark harrow hvalue hend hrest =>
          refine ⟨⟨⟨_, ?_, hvalue⟩, ?_⟩, _, ?_, hrest⟩
          · intro token htoken
            simp [htoken]
          · rintro key ⟨⟩
            exact ⟨_, List.mem_cons_self, hmark, rfl⟩
          · intro token htoken
            simp [htoken]
      | element _ _ hvalue _ hrest | spread _ hvalue _ hrest =>
          refine ⟨⟨⟨_, ?_, hvalue⟩, nofun⟩, _, ?_, hrest⟩
          · intro token htoken
            simp [htoken]
          · intro token htoken
            simp [htoken]

theorem Grammar.AreArguments.formedIn {tokens : List Token} {arguments : List (Argument Expr)}
    (h : AreArguments workspace tokens arguments) :
    ∀ argument ∈ arguments, FormedIn (IsExpr workspace) tokens argument.value := by
  induction arguments generalizing tokens with
  | nil => exact nofun
  | cons argument rest ih =>
      cases h with
      | cons hmark hvalue hends hrest =>
          refine List.forall_mem_cons.2 ⟨⟨_, ?_, hvalue⟩, fun other hother =>
            (ih hrest other hother).mono ?_⟩
          · intro token htoken
            simp [htoken]
          · intro token htoken
            simp [htoken]

/-- The values of members are formed of tokens of the container, and its keys
are names of such tokens. -/
theorem Grammar.IsContainer.formedIn {tokens : List Token} {body : Container Expr}
    (h : IsContainer workspace tokens body) :
    ∀ member ∈ body.members, FormedIn (IsExpr workspace) tokens member.value ∧
      ∀ key ∈ member.key?, KeyIn tokens key := by
  cases h with
  | @intro opening closing inner _ _ hopening hmembers hkind hclosing =>
      have hinside : inner ⊆ opening :: (inner ++ [closing]) := by
        intro token htoken
        simp [htoken]
      intro member hmember
      obtain ⟨hvalue, hkey⟩ := hmembers.formedIn member hmember
      exact ⟨hvalue.mono hinside, fun key hsome => (hkey key hsome).mono hinside⟩

theorem Grammar.IsOperand.formedIn {tokens : List Token} {expr : Expr}
    (h : IsOperand workspace tokens expr) :
    ∀ part ∈ expr.parts, FormedIn (IsExpr workspace) tokens part := by
  cases h with
  | literal | path | name => exact nofun
  | container hbody =>
      exact List.forall_mem_map.2 fun member hmember => (hbody.formedIn member hmember).1
  | classInstance hname hbody =>
      refine List.forall_mem_map.2 fun member hmember => ?_
      exact (hbody.formedIn member hmember).1.mono (List.subset_cons_self _ _)
  | call hname hopening harguments hclosing =>
      refine List.forall_mem_map.2 fun argument hargument => ?_
      refine (harguments.formedIn argument hargument).mono ?_
      intro token htoken
      simp [htoken]

/-- Every part of an expression is formed of some of its tokens. Facts about
tokens thus reach all parts. -/
theorem Grammar.IsExpr.formedIn {tokens : List Token} {expr : Expr}
    (h : IsExpr workspace tokens expr) :
    ∀ part ∈ expr.parts, FormedIn (IsExpr workspace) tokens part := by
  cases h with
  | operand hoperand => exact hoperand.formedIn
  | @conditional first second mark left right hleft hmark hright =>
      refine List.forall_mem_cons.2 ⟨⟨first, List.subset_append_left _ _, .operand hleft⟩, ?_⟩
      refine List.forall_mem_singleton.2 ⟨second, ?_, .operand hright⟩
      intro token htoken
      simp [htoken]

/-- What is in an expression, at whatever depth, is formed of tokens of the
expression. -/
theorem Grammar.FormedIn.contains {tokens : List Token} {expr part : Expr}
    (h : FormedIn (IsExpr workspace) tokens expr) (hpart : expr.Contains part) :
    FormedIn (IsExpr workspace) tokens part := by
  induction hpart with
  | refl => exact h
  | tail _ hlast ih =>
      obtain ⟨inner, hinner, hform⟩ := ih
      exact (hform.formedIn _ hlast).mono hinner

theorem Grammar.IsField.formedIn {inObjectType : Bool} {tokens : List Token}
    {field : Field TypeExpr} (h : IsField workspace inObjectType tokens field) :
    KeyIn tokens field.name ∧
      ∀ default ∈ field.default, FormedIn (IsExpr workspace) tokens default := by
  cases h with
  | intro hkey hmark htype hdefault hend =>
      refine ⟨⟨_, List.mem_cons_self, hkey, rfl⟩, fun default hsome => ?_⟩
      cases hdefault with
      | missing => cases hsome
      | present hbefore hvalue =>
          cases hsome
          refine ⟨_, ?_, hvalue⟩
          intro token htoken
          simp [htoken]

theorem Grammar.AreFields.formedIn {inObjectType : Bool} {tokens : List Token}
    {fields : List (Field TypeExpr)} (h : AreFields workspace inObjectType tokens fields) :
    ∀ field ∈ fields, FormedIn (IsField workspace inObjectType) tokens field := by
  induction fields generalizing tokens with
  | nil => exact nofun
  | cons field rest ih =>
      cases h with
      | @cons _ first others _ _ hfield hrest =>
          refine List.forall_mem_cons.2 ⟨⟨first, List.subset_append_left _ _, hfield⟩, ?_⟩
          intro other hother
          exact (ih hrest other hother).mono (List.subset_append_right _ _)

theorem Grammar.IsClass.formedIn {tokens : List Token} {decl : ClassDecl}
    (h : IsClass workspace tokens decl) :
    ∀ field ∈ decl.fields, FormedIn (IsField workspace false) tokens field := by
  cases h with
  | intro _ _ _ _ _ _ hfields =>
      intro field hfield
      refine (hfields.formedIn field hfield).mono fun token htoken => ?_
      simp [htoken]

theorem Grammar.IsUse.formedIn {aliasEnd : AliasEnd} {tokens : List Token} {statement : Use}
    (h : IsUse aliasEnd workspace tokens statement) :
    FormedIn (IsExpr workspace) tokens statement.value := by
  cases h with
  | @binding mark asWord semicolon valueTokens _ value _ _ hvalue =>
      have hinside : FormedIn (IsExpr workspace) valueTokens value := by
        cases hvalue with
        | operand _ hoperand => exact ⟨_, List.Subset.refl _, .operand hoperand⟩
        | expr _ hexpr => exact ⟨_, List.Subset.refl _, hexpr⟩
      refine hinside.mono fun token htoken => ?_
      simp [htoken]
  | pattern _ _ _ _ hvalue =>
      refine ⟨_, fun token htoken => ?_, hvalue⟩
      simp [htoken]

structure Module.FormedIn (aliasEnd : AliasEnd) (workspace : Workspace) (tokens : List Token)
    (module : Module) : Prop where
  imports : ∀ statement ∈ module.imports,
    Grammar.FormedIn (IsImport aliasEnd workspace) tokens statement
  uses : ∀ statement ∈ module.uses,
    Grammar.FormedIn (IsUse aliasEnd workspace) tokens statement
  classes : ∀ decl ∈ module.classes, Grammar.FormedIn (IsClass workspace) tokens decl
  body : Grammar.FormedIn (IsExpr workspace) tokens module.body

theorem Module.FormedIn.mono {aliasEnd : AliasEnd} {tokens more : List Token} {module : Module}
    (h : module.FormedIn aliasEnd workspace tokens) (hmore : tokens ⊆ more) :
    module.FormedIn aliasEnd workspace more where
  imports statement hstatement := (h.imports statement hstatement).mono hmore
  uses statement hstatement := (h.uses statement hstatement).mono hmore
  classes decl hdecl := (h.classes decl hdecl).mono hmore
  body := h.body.mono hmore

/-- Every statement of a module is formed of some of its tokens, in whatever
order they stand. -/
theorem Grammar.IsModule.formedIn {aliasEnd : AliasEnd} {tokens : List Token} {module : Module}
    (h : IsModule aliasEnd workspace tokens module) :
    module.FormedIn aliasEnd workspace tokens := by
  induction h with
  | exported hmark hbody hend =>
      refine ⟨nofun, nofun, nofun, _, ?_, hbody⟩
      intro token htoken
      simp [htoken]
  | @imported tokens rest first module hfirst hrest ih =>
      have hrest := ih.mono (List.subset_append_right tokens rest)
      have hfirst : Grammar.FormedIn (IsImport aliasEnd workspace) (tokens ++ rest) first :=
        ⟨tokens, List.subset_append_left tokens rest, hfirst⟩
      exact ⟨List.forall_mem_cons.2 ⟨hfirst, hrest.imports⟩, hrest.uses, hrest.classes, hrest.body⟩
  | @used tokens rest first module hfirst hrest ih =>
      have hrest := ih.mono (List.subset_append_right tokens rest)
      have hfirst : Grammar.FormedIn (IsUse aliasEnd workspace) (tokens ++ rest) first :=
        ⟨tokens, List.subset_append_left tokens rest, hfirst⟩
      exact ⟨hrest.imports, List.forall_mem_cons.2 ⟨hfirst, hrest.uses⟩, hrest.classes, hrest.body⟩
  | @declared tokens rest first module hfirst hrest ih =>
      have hrest := ih.mono (List.subset_append_right tokens rest)
      have hfirst : Grammar.FormedIn (IsClass workspace) (tokens ++ rest) first :=
        ⟨tokens, List.subset_append_left tokens rest, hfirst⟩
      exact ⟨hrest.imports, hrest.uses, List.forall_mem_cons.2 ⟨hfirst, hrest.classes⟩, hrest.body⟩
  | @loose tokens rest semicolon expr module hexpr hend hrest ih =>
      exact ih.mono fun token htoken => by simp [htoken]

end

end ConfigNotation
