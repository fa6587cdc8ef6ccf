import ConfigNotation.Proofs.Syntax.Extents
import ConfigNotation.Proofs.Token.Origins
import ConfigNotation.Proofs.Token.RegExps

/-!
What a module that is read from a text can bring into values: keys that are identifiers, and
regular expressions that literals stand for.
-/

namespace ConfigNotation

open Grammar

/-- What an expression brings into values by itself, without its parts. -/
def Expr.OwnSound : Expr → Prop
  | literal _ (.regExp value) => value.IsLiteral
  | container _ body | classInstance _ _ body =>
      ∀ member ∈ body.members, ∀ key ∈ member.key?, isIdentifier key.toList = true
  | _ => True

/-- An expression of which all parts, at any depth, bring sound things into
values. -/
def Expr.Sound (expr : Expr) : Prop := ∀ part, expr.Contains part → part.OwnSound

/-- A field whose name is an identifier and whose default, if there is one, is
sound. -/
structure Field.Sound (field : Field TypeExpr) : Prop where
  name : isIdentifier field.name.toList = true
  default : ∀ default ∈ field.default, default.Sound

structure Module.Sound (module : Module) : Prop where
  uses : ∀ statement ∈ module.uses, statement.value.Sound
  classes : ∀ decl ∈ module.classes, ∀ field ∈ decl.fields, field.Sound
  body : module.body.Sound

theorem Expr.Sound.parts {expr : Expr} (h : expr.Sound) : ∀ part ∈ expr.parts, part.Sound :=
  fun _ hpart inner hinner => h inner (.head hpart hinner)

/-- Tokens that are cut from a text. -/
def AreMatched (tokens : List Token) : Prop :=
  ∀ token ∈ tokens, token.kind ≠ .endOfInput → token.IsMatched

section

variable {workspace : Workspace} {tokens : List Token}

theorem Grammar.KeyIn.isIdentifier {key : String} (h : KeyIn tokens key)
    (htokens : AreMatched tokens) : isIdentifier key.toList = true := by
  obtain ⟨token, htoken, hkind, rfl⟩ := h
  exact (htokens token htoken (by rw [hkind]; nofun)).isIdentifier_keyName hkind

theorem readRegExp_of_ofToken {token : Token} {value : RegExp}
    (h : Literal.ofToken workspace token = .ok (.regExp value)) :
    token.kind = .regExp ∧
      Literal.readRegExp workspace.explain token.text.toList = .ok value := by
  unfold Literal.ofToken at h
  dsimp only at h
  split at h
  case h_9 hkind =>
    refine ⟨hkind, ?_⟩
    cases hread : Literal.readRegExp workspace.explain token.text.toList with
    | error fault =>
        rw [hread] at h
        cases h
    | ok found =>
        rw [hread] at h
        cases h
        rfl
  case h_8 =>
    cases hfile : Literal.readFile workspace token.text.toList <;> rw [hfile] at h <;> cases h
  all_goals first | (split at h <;> cases h) | cases h

theorem Grammar.IsLiteral.isLiteral_regExp {token : Token} {value : RegExp}
    (h : IsLiteral workspace token (.regExp value)) (htoken : token.IsMatched) :
    value.IsLiteral := by
  cases h with
  | plain _ _ hvalue =>
      obtain ⟨hkind, hread⟩ := readRegExp_of_ofToken hvalue
      obtain ⟨text, size, hregExp, htext⟩ := htoken.regExp? hkind
      rw [htext] at hread
      exact RegExp.isLiteral_of_readRegExp hregExp hread

theorem Grammar.IsOperand.ownSound {expr : Expr} (h : IsOperand workspace tokens expr)
    (htokens : AreMatched tokens) : expr.OwnSound := by
  cases h with
  | @literal token value hliteral =>
      cases value with
      | regExp value =>
          refine hliteral.isLiteral_regExp (htokens token List.mem_cons_self ?_)
          intro hkind
          have hisLiteral := hliteral.isLiteral
          rw [hkind] at hisLiteral
          cases hisLiteral
      | _ => trivial
  | path | name | call => trivial
  | container hbody =>
      intro member hmember key hkey
      exact ((hbody.formedIn member hmember).2 key hkey).isIdentifier htokens
  | classInstance hname hbody =>
      intro member hmember key hkey
      have hinside := (hbody.formedIn member hmember).2 key hkey
      exact hinside.isIdentifier fun token htoken =>
        htokens token (List.mem_cons_of_mem _ htoken)

theorem Grammar.IsExpr.ownSound {expr : Expr} (h : IsExpr workspace tokens expr)
    (htokens : AreMatched tokens) : expr.OwnSound := by
  cases h with
  | operand hoperand => exact hoperand.ownSound htokens
  | conditional => trivial

theorem Grammar.FormedIn.sound {expr : Expr} (h : FormedIn (IsExpr workspace) tokens expr)
    (htokens : AreMatched tokens) : expr.Sound := by
  intro part hpart
  obtain ⟨inner, hinner, hform⟩ := h.contains hpart
  exact hform.ownSound fun token htoken => htokens token (hinner htoken)

theorem Module.FormedIn.sound {aliasEnd : AliasEnd} {module : Module}
    (h : module.FormedIn aliasEnd workspace tokens) (htokens : AreMatched tokens) :
    module.Sound where
  uses statement hstatement := by
    obtain ⟨inner, hinner, hform⟩ := h.uses statement hstatement
    exact (hform.formedIn.mono hinner).sound htokens
  classes decl hdecl field hfield := by
    obtain ⟨inner, hinner, hform⟩ := h.classes decl hdecl
    obtain ⟨own, hown, hfieldForm⟩ := (hform.formedIn field hfield).mono hinner
    refine ⟨(hfieldForm.formedIn.1.mono hown).isIdentifier htokens, fun default hdefault => ?_⟩
    exact ((hfieldForm.formedIn.2 default hdefault).mono hown).sound htokens
  body := h.body.sound htokens

end

end ConfigNotation
