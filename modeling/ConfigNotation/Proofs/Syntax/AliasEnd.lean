import Mathlib.Data.List.Infix
import ConfigNotation.Proofs.Syntax.Modules
import ConfigNotation.Token.Lexer

/-!
Which tokens are accepted as a module. The two ways to treat the mark behind the alias of
a key agree on tokens in which no alias stands in front of a closing bracket: only patterns
depend on the way, and every pattern in a module is a part of its tokens. A last alias
without its mark is derived by the one way, and refused.
-/

namespace ConfigNotation.Grammar

/-- No alias of a key stands in front of a closing bracket. -/
def AliasesEnd (tokens : List Token) : Prop :=
  ¬[.arrow, .ident, .rightBracket] <:+: tokens.map (·.kind)

instance (tokens : List Token) : Decidable (AliasesEnd tokens) :=
  inferInstanceAs (Decidable (¬_))

/-- What tokens fulfil in which every alias is to have its mark. -/
def AliasEnd.Holds (aliasEnd : AliasEnd) (tokens : List Token) : Prop :=
  aliasEnd = .required → AliasesEnd tokens

variable {aliasEnd other : AliasEnd} {workspace : Workspace}

theorem AliasEnd.Holds.part {tokens part : List Token} (h : aliasEnd.Holds tokens)
    (hpart : part <:+: tokens) : aliasEnd.Holds part :=
  fun hrequired hfound => h hrequired (hfound.trans (hpart.map _))

mutual

theorem IsGroup.change {taken : List Token} {leaves : List Leaf}
    (h : IsGroup aliasEnd taken leaves) (hends : other.Holds taken) :
    IsGroup other taken leaves := by
  match h with
  | @IsGroup.intro _ opening closing inner _ hopening hentries hclosing =>
      have hinner := hends.part (List.suffix_cons opening _).isInfix
      exact .intro hopening (hentries.change hclosing hinner) hclosing
termination_by structural h

theorem AreEntries.change {place : Nat} {inner : List Token} {leaves : List Leaf}
    {closing : Token} (h : AreEntries aliasEnd place inner leaves)
    (hclosing : closing.kind = .rightBracket) (hends : other.Holds (inner ++ [closing])) :
    AreEntries other place inner leaves := by
  match h with
  | .nil _ => exact .nil place
  | @AreEntries.name _ _ name ends rest _ hname hmark hrest =>
      refine .name hname hmark (hrest.change hclosing (hends.part ?_))
      exact ⟨name :: ends, [], by simp⟩
  | @AreEntries.empty _ _ semicolon rest _ hmark hrest =>
      refine .empty hmark (hrest.change hclosing (hends.part ?_))
      exact ⟨[semicolon], [], by simp⟩
  | @AreEntries.skip _ _ word ends rest _ hword hmark hrest =>
      refine .skip hword hmark (hrest.change hclosing (hends.part ?_))
      exact ⟨word :: ends, [], by simp⟩
  | @AreEntries.group _ _ tokens ends rest _ _ hgroup hmark hrest =>
      refine .group (hgroup.change (hends.part ?_)) hmark (hrest.change hclosing (hends.part ?_))
      · exact ⟨[], ends ++ (rest ++ [closing]), by simp⟩
      · exact ⟨tokens ++ ends, [], by simp⟩
  | @AreEntries.keyedName _ _ key arrow name ends rest _ hkey harrow hname hmark _ hrest =>
      refine .keyedName hkey harrow hname hmark ?_ (hrest.change hclosing (hends.part ?_))
      · rintro hrequired rfl
        cases hmark with
        | last =>
            apply hends hrequired
            refine ⟨[key.kind], [], ?_⟩
            simp [harrow, hname, hclosing]
      · exact ⟨key :: arrow :: name :: ends, [], by simp⟩
  | @AreEntries.keyedGroup _ _ key arrow tokens ends rest _ _ hkey harrow hgroup hmark hrest =>
      refine .keyedGroup hkey harrow (hgroup.change (hends.part ?_)) hmark
        (hrest.change hclosing (hends.part ?_))
      · exact ⟨[key, arrow], ends ++ (rest ++ [closing]), by simp⟩
      · exact ⟨key :: arrow :: (tokens ++ ends), [], by simp⟩
termination_by structural h

end

theorem IsBinding.change {taken : List Token} {binding : Binding}
    (h : IsBinding aliasEnd taken binding) (hends : other.Holds taken) :
    IsBinding other taken binding := by
  cases h with
  | name hkind => exact .name hkind
  | pattern hgroup => exact .pattern (hgroup.change hends)

theorem IsImport.change {taken : List Token} {found : Import}
    (h : IsImport aliasEnd workspace taken found) (hends : other.Holds taken) :
    IsImport other workspace taken found := by
  cases h with
  | @binding mark source asWord semicolon tokens _ _ hmark hsource has hbinding hend =>
      refine .binding hmark hsource has (hbinding.change (hends.part ?_)) hend
      exact ⟨[mark, source, asWord], [semicolon], by simp⟩
  | @pattern mark fromWord source semicolon tokens _ _ hmark hgroup hfrom hsource hend =>
      refine .pattern hmark (hgroup.change (hends.part ?_)) hfrom hsource hend
      exact ⟨[mark], [fromWord, source, semicolon], by simp⟩

theorem IsUse.change {taken : List Token} {found : Use}
    (h : IsUse aliasEnd workspace taken found) (hends : other.Holds taken) :
    IsUse other workspace taken found := by
  cases h with
  | @binding mark asWord semicolon valueTokens tokens _ _ hmark hvalue has hbinding hend =>
      refine .binding hmark hvalue has (hbinding.change (hends.part ?_)) hend
      exact ⟨mark :: (valueTokens ++ [asWord]), [semicolon], by simp⟩
  | @pattern mark fromWord semicolon tokens valueTokens _ _ hmark hgroup hsome hfrom hvalue hend =>
      refine .pattern hmark (hgroup.change (hends.part ?_)) hsome hfrom hvalue hend
      exact ⟨[mark], fromWord :: (valueTokens ++ [semicolon]), by simp⟩

/-- A module is one under the other way as well, if that way finds the marks it
asks for. -/
theorem IsModule.change {taken : List Token} {module : Module}
    (h : IsModule aliasEnd workspace taken module) (hends : other.Holds taken) :
    IsModule other workspace taken module := by
  induction h with
  | exported hmark hbody hend => exact .exported hmark hbody hend
  | imported hfirst _ ih =>
      exact .imported (hfirst.change (hends.part (List.prefix_append _ _).isInfix))
        (ih (hends.part (List.suffix_append _ _).isInfix))
  | used hfirst _ ih =>
      exact .used (hfirst.change (hends.part (List.prefix_append _ _).isInfix))
        (ih (hends.part (List.suffix_append _ _).isInfix))
  | declared hfirst _ ih =>
      exact .declared hfirst (ih (hends.part (List.suffix_append _ _).isInfix))
  | @loose tokens rest semicolon _ _ hexpr hend _ ih =>
      refine .loose hexpr hend (ih (hends.part ?_))
      exact ⟨tokens ++ [semicolon], [], by simp⟩

end ConfigNotation.Grammar

namespace ConfigNotation

open Grammar

/-- Under either way, a module is built from tokens exactly if the grammar
derives it from those before the first end of the input, and then there is no
other one. Where the mark may be left out, this asks that it is not. -/
theorem module_accepted_iff (workspace : Workspace) (tokens : List Token) (aliasEnd : AliasEnd)
    (hends : aliasEnd = .optional → AliasesEnd (beforeEnd tokens)) :
    (∀ module, Module.ofTokens workspace tokens = .ok module ↔
      IsModule aliasEnd workspace (beforeEnd tokens) module) ∧
    ∀ first second, IsModule aliasEnd workspace (beforeEnd tokens) first →
      IsModule aliasEnd workspace (beforeEnd tokens) second → first = second := by
  have haccepted : ∀ module, Module.ofTokens workspace tokens = .ok module ↔
      IsModule aliasEnd workspace (beforeEnd tokens) module := by
    intro module
    rw [Module.ofTokens_eq_ok_iff]
    cases aliasEnd with
    | required => exact Iff.rfl
    | optional =>
        constructor
        · intro h
          exact h.change nofun
        · intro h
          exact h.change fun _ => hends rfl
  refine ⟨haccepted, ?_⟩
  intro first second hfirst hsecond
  have heq := ((haccepted first).2 hfirst).symm.trans ((haccepted second).2 hsecond)
  exact Except.ok.inj heq

/-- The tokens of `use [host => h;] from x; export h;`. -/
def endedAlias : List Token :=
  [⟨.useWord, "use", ⟨0, 3⟩, ⟨1, 1⟩⟩, ⟨.leftBracket, "[", ⟨4, 5⟩, ⟨1, 5⟩⟩,
    ⟨.ident, "host", ⟨5, 9⟩, ⟨1, 6⟩⟩, ⟨.arrow, "=>", ⟨10, 12⟩, ⟨1, 11⟩⟩,
    ⟨.ident, "h", ⟨13, 14⟩, ⟨1, 14⟩⟩, ⟨.semicolon, ";", ⟨14, 15⟩, ⟨1, 15⟩⟩,
    ⟨.rightBracket, "]", ⟨15, 16⟩, ⟨1, 16⟩⟩, ⟨.fromWord, "from", ⟨17, 21⟩, ⟨1, 18⟩⟩,
    ⟨.ident, "x", ⟨22, 23⟩, ⟨1, 23⟩⟩, ⟨.semicolon, ";", ⟨23, 24⟩, ⟨1, 24⟩⟩,
    ⟨.exportWord, "export", ⟨25, 31⟩, ⟨1, 26⟩⟩, ⟨.ident, "h", ⟨32, 33⟩, ⟨1, 33⟩⟩,
    ⟨.semicolon, ";", ⟨33, 34⟩, ⟨1, 34⟩⟩, ⟨.endOfInput, "", ⟨34, 34⟩, ⟨1, 35⟩⟩]

def noFiles : Workspace := ⟨.new ⟨"/"⟩, Store.empty.fileSystem, fun _ _ => ""⟩

theorem module_accepted_iff_ended :
    AliasesEnd (beforeEnd endedAlias) ∧ ∃ module, Module.ofTokens noFiles endedAlias = .ok module ∧
      IsModule .optional noFiles (beforeEnd endedAlias) module := by
  have haccepted : (Module.ofTokens noFiles endedAlias).toOption.isSome = true := by
    decide +kernel
  have hends : AliasesEnd (beforeEnd endedAlias) := by decide
  cases hread : Module.ofTokens noFiles endedAlias with
  | error fault =>
      rw [hread] at haccepted
      cases haccepted
  | ok module =>
      obtain ⟨hiff, _⟩ := module_accepted_iff noFiles endedAlias .optional fun _ => hends
      exact ⟨hends, module, rfl, (hiff module).1 hread⟩

/-- The same without the mark behind the alias. -/
def unendedAlias : List Token :=
  [⟨.useWord, "use", ⟨0, 3⟩, ⟨1, 1⟩⟩, ⟨.leftBracket, "[", ⟨4, 5⟩, ⟨1, 5⟩⟩,
    ⟨.ident, "host", ⟨5, 9⟩, ⟨1, 6⟩⟩, ⟨.arrow, "=>", ⟨10, 12⟩, ⟨1, 11⟩⟩,
    ⟨.ident, "h", ⟨13, 14⟩, ⟨1, 14⟩⟩, ⟨.rightBracket, "]", ⟨14, 15⟩, ⟨1, 15⟩⟩,
    ⟨.fromWord, "from", ⟨16, 20⟩, ⟨1, 17⟩⟩, ⟨.ident, "x", ⟨21, 22⟩, ⟨1, 22⟩⟩,
    ⟨.semicolon, ";", ⟨22, 23⟩, ⟨1, 23⟩⟩, ⟨.exportWord, "export", ⟨24, 30⟩, ⟨1, 25⟩⟩,
    ⟨.ident, "h", ⟨31, 32⟩, ⟨1, 32⟩⟩, ⟨.semicolon, ";", ⟨32, 33⟩, ⟨1, 33⟩⟩,
    ⟨.endOfInput, "", ⟨33, 33⟩, ⟨1, 34⟩⟩]

theorem unended_alias_refused :
    (lex "use [host => h] from x; export h;").toOption =
      some ⟨"use [host => h] from x; export h;", unendedAlias⟩ ∧
    IsModule .optional noFiles (beforeEnd unendedAlias)
      ⟨[], [⟨.ident ⟨21, 22⟩ "x", .pattern [⟨["host"], "h"⟩], ⟨0, 23⟩⟩], [],
        .ident ⟨31, 32⟩ "h"⟩ ∧
    ∀ module, Module.ofTokens noFiles unendedAlias ≠ .ok module := by
  have hentries := @AreEntries.keyedName .optional 0 ⟨.ident, "host", ⟨5, 9⟩, ⟨1, 6⟩⟩
    ⟨.arrow, "=>", ⟨10, 12⟩, ⟨1, 11⟩⟩ ⟨.ident, "h", ⟨13, 14⟩, ⟨1, 14⟩⟩ [] [] []
    rfl rfl rfl .last nofun (.nil 0)
  have hgroup := @IsGroup.intro .optional ⟨.leftBracket, "[", ⟨4, 5⟩, ⟨1, 5⟩⟩
    ⟨.rightBracket, "]", ⟨14, 15⟩, ⟨1, 15⟩⟩ _ _ rfl hentries rfl
  have huse := @IsUse.pattern .optional noFiles ⟨.useWord, "use", ⟨0, 3⟩, ⟨1, 1⟩⟩
    ⟨.fromWord, "from", ⟨16, 20⟩, ⟨1, 17⟩⟩ ⟨.semicolon, ";", ⟨22, 23⟩, ⟨1, 23⟩⟩ _
    [⟨.ident, "x", ⟨21, 22⟩, ⟨1, 22⟩⟩] _ _ rfl hgroup (by decide) rfl (.operand (.name rfl)) rfl
  have hexport := @IsModule.exported .optional noFiles ⟨.exportWord, "export", ⟨24, 30⟩, ⟨1, 25⟩⟩
    ⟨.semicolon, ";", ⟨32, 33⟩, ⟨1, 33⟩⟩ [⟨.ident, "h", ⟨31, 32⟩, ⟨1, 32⟩⟩] _ rfl
    (.operand (.name rfl)) rfl
  have hrefused : (Module.ofTokens noFiles unendedAlias).toOption.isNone = true := by
    decide +kernel
  refine ⟨by decide +kernel, .used huse hexport, ?_⟩
  intro module h
  rw [h] at hrefused
  cases hrefused

end ConfigNotation
