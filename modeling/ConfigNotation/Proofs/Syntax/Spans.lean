import ConfigNotation.Proofs.Syntax.Extents

/-!
Where the parts of a module start. The span of an expression, of whatever depth, of a
class, an import or a use starts where one of the tokens of the module starts.
-/

namespace ConfigNotation

open Grammar

/-- A span starts where one of some tokens starts. -/
def StartsIn (tokens : List Token) (span : Span) : Prop :=
  ∃ token ∈ tokens, span.start = token.span.start

theorem StartsIn.mono {tokens more : List Token} {span : Span} (h : StartsIn tokens span)
    (hmore : tokens ⊆ more) : StartsIn more span := by
  obtain ⟨token, htoken, hstart⟩ := h
  exact ⟨token, hmore htoken, hstart⟩

theorem StartsIn.merge {tokens : List Token} {first second : Span} (hfirst : StartsIn tokens first)
    (hsecond : StartsIn tokens second) :
    StartsIn tokens (first.merge second) := by
  have hmin : (first.merge second).start = min first.start second.start := rfl
  rcases Nat.le_total first.start second.start with hle | hle
  · rw [StartsIn, hmin, Nat.min_eq_left hle]
    exact hfirst
  · rw [StartsIn, hmin, Nat.min_eq_right hle]
    exact hsecond

theorem startsIn_token {tokens : List Token} {token : Token} (h : token ∈ tokens) :
    StartsIn tokens token.span :=
  ⟨token, h, rfl⟩

theorem startsIn_spanOf (first : Token) (rest : List Token) :
    StartsIn (first :: rest) (spanOf (first :: rest)) := by
  have hlast : (first :: rest).getLast? = some (rest.getLast?.getD first) := List.getLast?_cons
  rw [spanOf, hlast]
  exact (startsIn_token List.mem_cons_self).merge (startsIn_token (List.mem_of_getLast? hlast))

/-- What starts with its tokens starts with one of any tokens that it is formed
of. -/
theorem startsIn_of_formedIn {α : Type} {form : List Token → α → Prop} {span : α → Span}
    (hform : ∀ tokens made, form tokens made → StartsIn tokens (span made))
    {tokens : List Token} {made : α} (h : FormedIn form tokens made) :
    StartsIn tokens (span made) := by
  obtain ⟨inner, hinner, hmade⟩ := h
  exact (hform inner made hmade).mono hinner

section

variable {workspace : Workspace} {aliasEnd : AliasEnd} {tokens : List Token}

theorem Grammar.IsOperand.startsIn {expr : Expr} (h : IsOperand workspace tokens expr) :
    StartsIn tokens expr.span := by
  cases h with
  | literal | path | name => exact startsIn_token List.mem_cons_self
  | call | classInstance => exact startsIn_spanOf _ _
  | container hbody =>
      obtain ⟨first, rest, rfl, _⟩ := hbody.start
      exact startsIn_spanOf first rest

theorem Grammar.IsExpr.startsIn {expr : Expr} (h : IsExpr workspace tokens expr) :
    StartsIn tokens expr.span := by
  cases h with
  | operand hoperand => exact hoperand.startsIn
  | conditional hleft hmark hright =>
      refine (hleft.startsIn.mono (List.subset_append_left _ _)).merge (hright.startsIn.mono ?_)
      intro token htoken
      simp [htoken]

theorem Grammar.IsImport.startsIn {statement : Import}
    (h : IsImport aliasEnd workspace tokens statement) :
    StartsIn tokens statement.span := by
  cases h with
  | binding | pattern => exact startsIn_spanOf _ _

theorem Grammar.IsUse.startsIn {statement : Use} (h : IsUse aliasEnd workspace tokens statement) :
    StartsIn tokens statement.span := by
  cases h with
  | binding | pattern => exact startsIn_spanOf _ _

theorem Grammar.IsClass.startsIn {decl : ClassDecl} (h : IsClass workspace tokens decl) :
    StartsIn tokens decl.span := by
  cases h with
  | intro => exact startsIn_spanOf _ _

end

/-- An expression of which all parts, at any depth, start in some tokens. -/
def Expr.LiesIn (expr : Expr) (tokens : List Token) : Prop :=
  ∀ part, expr.Contains part → StartsIn tokens part.span

/-- Fields whose defaults, as far as they have some, start in some tokens. -/
def DefaultsLieIn (fields : List (Field TypeExpr)) (tokens : List Token) : Prop :=
  ∀ field ∈ fields, ∀ default ∈ field.default, default.LiesIn tokens

/-- A module of which all spans start in some tokens. -/
structure Module.LiesIn (module : Module) (tokens : List Token) : Prop where
  imports : ∀ statement ∈ module.imports, StartsIn tokens statement.span
  uses : ∀ statement ∈ module.uses,
    StartsIn tokens statement.span ∧ statement.value.LiesIn tokens
  classes : ∀ decl ∈ module.classes,
    StartsIn tokens decl.span ∧ DefaultsLieIn decl.fields tokens
  body : module.body.LiesIn tokens

theorem Grammar.FormedIn.liesIn {workspace : Workspace} {tokens : List Token} {expr : Expr}
    (h : FormedIn (IsExpr workspace) tokens expr) : expr.LiesIn tokens := fun _ hpart =>
  startsIn_of_formedIn (fun _ _ hform => hform.startsIn) (h.contains hpart)

theorem Module.FormedIn.liesIn {workspace : Workspace} {aliasEnd : AliasEnd} {tokens : List Token}
    {module : Module} (h : module.FormedIn aliasEnd workspace tokens) : module.LiesIn tokens where
  imports statement hstatement :=
    startsIn_of_formedIn (fun _ _ hform => hform.startsIn) (h.imports statement hstatement)
  uses statement hstatement := by
    obtain ⟨inner, hinner, hform⟩ := h.uses statement hstatement
    exact ⟨hform.startsIn.mono hinner, (hform.formedIn.mono hinner).liesIn⟩
  classes decl hdecl := by
    obtain ⟨inner, hinner, hform⟩ := h.classes decl hdecl
    refine ⟨hform.startsIn.mono hinner, fun field hfield default hdefault => ?_⟩
    obtain ⟨own, hown, hfieldForm⟩ := hform.formedIn field hfield
    exact ((hfieldForm.formedIn.2 default hdefault).mono (List.Subset.trans hown hinner)).liesIn
  body := h.body.liesIn

end ConfigNotation
