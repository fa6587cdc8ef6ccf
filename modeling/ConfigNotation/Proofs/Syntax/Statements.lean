import ConfigNotation.Proofs.Syntax.Classes
import ConfigNotation.Proofs.Syntax.Patterns

/-!
Imports and uses are read as the grammar derives them. Two tokens decide whether a bracket
behind the word of a use opens a pattern, and no value starts with such a pair.
-/

namespace ConfigNotation

open Grammar ConfigNotation.Parser

variable {workspace : Workspace}

theorem Cursor.Takes.nextKind {before after : Cursor} {first second : Token} {rest : List Token}
    (h : before.Takes (first :: second :: rest) after) : before.nextKind = second.kind := by
  rw [Cursor.nextKind, h.tokens]
  rfl

theorem fileRef_obeys {expected : String} {cursor : Cursor} {parsed : Parsed FileRef cursor}
    (h : fileRef workspace expected cursor = .ok parsed) :
    parsed.Obeys fun taken file => ∃ token, taken = [token] ∧ NamesFile workspace token file := by
  rw [fileRef] at h
  obtain ⟨⟨token, after, hless⟩, htoken, h⟩ := bind_eq_ok.1 h
  obtain ⟨htakes, hkind⟩ := Cursor.takes_of_expectAs htoken
  dsimp only at h
  split at h
  · next hfile =>
    cases h
    exact ⟨_, htakes, token, rfl, (readFile_eq_ok_iff hkind).1 hfile⟩
  · cases h

theorem fileRef_accepts {expected : String} {token : Token} {file : FileRef}
    (h : NamesFile workspace token file) {cursor after : Cursor}
    (htakes : cursor.Takes [token] after) :
    ∃ hless, fileRef workspace expected cursor = .ok ⟨file, after, hless⟩ := by
  obtain ⟨hless, hread⟩ := htakes.expectAs h.kind expected
  refine ⟨hless, ?_⟩
  rw [fileRef, bind_of_ok hread]
  dsimp only
  rw [(readFile_eq_ok_iff h.kind).2 h]
  rfl

/-- An import that was read is derived, in the form with a pattern in front or
in that with a binding behind. -/
theorem importStatement_obeys {cursor : Cursor} {parsed : Parsed Import cursor}
    (h : importStatement workspace cursor = .ok parsed) :
    parsed.Obeys (IsImport .required workspace) := by
  rw [importStatement, inContext_eq_ok] at h
  obtain ⟨mark, hmark, h⟩ := bind_eq_ok.1 h
  obtain ⟨hmarkTakes, hmark⟩ := Cursor.takes_of_expect hmark
  split at h
  · obtain ⟨binding, hbinding, h⟩ := bind_eq_ok.1 h
    obtain ⟨fromWord, hfrom, h⟩ := bind_eq_ok.1 h
    obtain ⟨source, hsource, h⟩ := bind_eq_ok.1 h
    obtain ⟨finish, hfinish, h⟩ := bind_eq_ok.1 h
    obtain ⟨tokens, htokens, leaves, hleaves, hgroup⟩ :=
      Parsed.obeys_of_thenRead hbinding pattern_obeys
    obtain ⟨_, hfromTakes, rfl, hfrom⟩ := Parsed.obeys_of_thenRead hfrom Cursor.expectAs_obeys
    obtain ⟨_, hsourceTakes, file, rfl, hfile⟩ := Parsed.obeys_of_thenRead hsource fileRef_obeys
    obtain ⟨_, hfinishTakes, rfl, hend⟩ := Parsed.obeys_of_thenRead hfinish Cursor.expectAs_obeys
    cases h
    have hall : cursor.Takes
        (mark.value :: (tokens ++ [fromWord.value, file, finish.value])) finish.after := by
      simpa using hmarkTakes.trans
        (htokens.trans (hfromTakes.trans (hsourceTakes.trans hfinishTakes)))
    refine ⟨_, hall, ?_⟩
    dsimp only [Parsed.map]
    rw [hmarkTakes.current, hall.merge, hleaves]
    exact .pattern hmark hgroup hfrom hfile hend
  · obtain ⟨source, hsource, h⟩ := bind_eq_ok.1 h
    obtain ⟨asWord, has, h⟩ := bind_eq_ok.1 h
    obtain ⟨binding, hbinding, h⟩ := bind_eq_ok.1 h
    obtain ⟨finish, hfinish, h⟩ := bind_eq_ok.1 h
    obtain ⟨_, hsourceTakes, file, rfl, hfile⟩ := Parsed.obeys_of_thenRead hsource fileRef_obeys
    obtain ⟨_, hasTakes, rfl, has⟩ := Parsed.obeys_of_thenRead has Cursor.expectAs_obeys
    obtain ⟨tokens, htokens, hbinding⟩ := Parsed.obeys_of_thenRead hbinding binding_obeys
    obtain ⟨_, hfinishTakes, rfl, hend⟩ := Parsed.obeys_of_thenRead hfinish Cursor.expectAs_obeys
    cases h
    have hall : cursor.Takes
        (mark.value :: file :: asWord.value :: (tokens ++ [finish.value])) finish.after := by
      simpa using hmarkTakes.trans
        (hsourceTakes.trans (hasTakes.trans (htokens.trans hfinishTakes)))
    refine ⟨_, hall, ?_⟩
    dsimp only [Parsed.map]
    rw [hmarkTakes.current, hall.merge]
    exact .binding hmark hfile has hbinding hend

theorem importStatement_accepts {taken : List Token} {found : Import}
    (h : IsImport .required workspace taken found) {cursor after : Cursor}
    (htakes : cursor.Takes taken after) :
    ∃ hless, importStatement workspace cursor = .ok ⟨found, after, hless⟩ := by
  cases h with
  | binding hmark hfile has hbinding hend =>
      obtain ⟨_, hmarkTakes, hfromFile⟩ := htakes.uncons
      obtain ⟨_, hfileTakes, hfromAs⟩ := hfromFile.uncons
      obtain ⟨_, hasTakes, hfromBinding⟩ := hfromAs.uncons
      obtain ⟨_, hbindingTakes, hendTakes⟩ := hfromBinding.split
      obtain ⟨_, hmarkRead⟩ := hmarkTakes.expect hmark
      obtain ⟨_, hfileRead⟩ := @fileRef_accepts _ "a file literal" _ _ hfile _ _ hfileTakes
      obtain ⟨_, hasRead⟩ := hasTakes.expect has
      obtain ⟨_, hbindingRead⟩ := binding_accepts hbinding hbindingTakes
      obtain ⟨_, hendRead⟩ := hendTakes.expect hend
      refine ⟨htakes.shorter, inContext_eq_ok.2 ?_⟩
      rw [bind_of_ok hmarkRead]
      dsimp only
      rw [if_neg (by simp [hfromFile.kind, hfile.kind]),
        bind_of_ok (Parsed.thenRead_of_ok hfileRead),
        bind_of_ok (Parsed.thenRead_of_ok hasRead),
        bind_of_ok (Parsed.thenRead_of_ok hbindingRead),
        bind_of_ok (Parsed.thenRead_of_ok hendRead), hmarkTakes.current]
      dsimp only
      rw [htakes.merge]
      rfl
  | pattern hmark hgroup hfrom hfile hend =>
      obtain ⟨_, hmarkTakes, hfromGroup⟩ := htakes.uncons
      obtain ⟨_, hgroupTakes, hfromFrom⟩ := hfromGroup.split
      obtain ⟨_, hfromTakes, hfromFile⟩ := hfromFrom.uncons
      obtain ⟨_, hfileTakes, hendTakes⟩ := hfromFile.uncons
      obtain ⟨_, hmarkRead⟩ := hmarkTakes.expect hmark
      obtain ⟨_, hgroupRead⟩ := pattern_accepts hgroup hgroupTakes
      obtain ⟨_, hfromRead⟩ := hfromTakes.expectAs hfrom "\"from\" after the bindings"
      obtain ⟨_, hfileRead⟩ :=
        @fileRef_accepts _ "a file literal after \"from\"" _ _ hfile _ _ hfileTakes
      obtain ⟨_, hendRead⟩ := hendTakes.expect hend
      obtain ⟨opening, _, rfl, hopening⟩ := hgroup.start
      refine ⟨htakes.shorter, inContext_eq_ok.2 ?_⟩
      rw [bind_of_ok hmarkRead]
      dsimp only
      rw [if_pos (hfromGroup.kind.trans hopening),
        bind_of_ok (Parsed.thenRead_of_ok hgroupRead),
        bind_of_ok (Parsed.thenRead_of_ok hfromRead),
        bind_of_ok (Parsed.thenRead_of_ok hfileRead),
        bind_of_ok (Parsed.thenRead_of_ok hendRead), hmarkTakes.current]
      dsimp only
      rw [htakes.merge]
      rfl

theorem Grammar.AreMembers.start {inner : List Token} {members : List (Member Expr)}
    (h : AreMembers workspace inner members) :
    ∀ first ∈ inner.head?, opensPattern first.kind = false := by
  intro token htoken
  cases h with
  | nil => cases htoken
  | property hkind | element hkind | spread hkind =>
      cases htoken
      rw [hkind]
      rfl

theorem Grammar.AreEntries.start {aliasEnd : AliasEnd} {place : Nat} {inner : List Token}
    {leaves : List Leaf} (h : AreEntries aliasEnd place inner leaves) :
    ∀ first ∈ inner.head?, opensPattern first.kind = true := by
  intro token htoken
  cases h with
  | nil => cases htoken
  | name hkind | empty hkind | skip hkind | keyedName hkind | keyedGroup hkind =>
      cases htoken
      rw [hkind]
      rfl
  | group hgroup =>
      obtain ⟨opening, _, rfl, hkind⟩ := hgroup.start
      cases htoken
      rw [hkind]
      rfl

/-- Behind the bracket that starts an operand stands nothing that would make it
a pattern. -/
theorem Grammar.IsOperand.behind_bracket {first : Token} {rest : List Token} {value : Expr}
    (h : IsOperand workspace (first :: rest) value) (hfirst : first.kind = .leftBracket) :
    ∃ second more, rest = second :: more ∧ opensPattern second.kind = false := by
  cases h with
  | container hbody =>
      cases hbody with
      | @intro _ closing inner _ _ _ hmembers _ hclosing =>
          cases inner with
          | nil => exact ⟨closing, [], rfl, by rw [hclosing]; rfl⟩
          | cons second inner => exact ⟨second, _, rfl, hmembers.start second rfl⟩
  | literal hliteral =>
      have hkind := hliteral.isLiteral
      rw [hfirst] at hkind
      cases hkind
  | path hkind | name hkind | call hkind | classInstance hkind =>
      rw [hkind] at hfirst
      cases hfirst

/-- The token behind the bracket of an expression does not open a pattern, so a
value in brackets and a pattern are told apart by two tokens. -/
theorem Grammar.IsExpr.behind_bracket {first : Token} {rest : List Token} {value : Expr}
    (h : IsExpr workspace (first :: rest) value) (hfirst : first.kind = .leftBracket) :
    ∃ second more, rest = second :: more ∧ opensPattern second.kind = false := by
  generalize htokens : first :: rest = tokens at h
  cases h with
  | operand hoperand =>
      subst htokens
      exact hoperand.behind_bracket hfirst
  | conditional hleft _ _ =>
      obtain ⟨head, tail, rfl, _⟩ := hleft.start
      cases htokens
      obtain ⟨second, more, rfl, hsecond⟩ := hleft.behind_bracket hfirst
      exact ⟨second, _, rfl, hsecond⟩

/-- A bracket that opens a pattern is the first of more than two tokens, and no
other is. -/
theorem Grammar.IsGroup.length_gt_two_iff {aliasEnd : AliasEnd} {taken : List Token}
    {leaves : List Leaf} (h : IsGroup aliasEnd taken leaves) {cursor after : Cursor}
    (htakes : cursor.Takes taken after) :
    2 < taken.length ↔ opensPattern cursor.nextKind = true := by
  cases h with
  | @intro opening closing inner _ hopening hentries hclosing =>
      cases inner with
      | nil =>
          rw [htakes.nextKind, hclosing]
          exact iff_of_false (Nat.lt_irrefl 2) nofun
      | cons first inner =>
          rw [htakes.nextKind]
          exact iff_of_true (by simp) (hentries.start first rfl)

theorem Grammar.IsUsedValue.opens_no_pattern {taken rest : List Token} {value : Expr}
    (h : IsUsedValue workspace taken value) {cursor after : Cursor}
    (htakes : cursor.Takes (taken ++ rest) after) :
    ¬(cursor.kind = .leftBracket ∧ opensPattern cursor.nextKind = true) := by
  rintro ⟨hbracket, hopens⟩
  cases h with
  | operand hname _ =>
      rw [htakes.kind, hname] at hbracket
      cases hbracket
  | expr _ hexpr =>
      rw [htakes.kind] at hbracket
      obtain ⟨second, more, rfl, hsecond⟩ := hexpr.behind_bracket hbracket
      rw [htakes.nextKind, hsecond] at hopens
      cases hopens

theorem usedValue_obeys {cursor : Cursor} {parsed : Parsed Expr cursor}
    (h : usedValue workspace cursor = .ok parsed) :
    parsed.Obeys (IsUsedValue workspace) := by
  rw [usedValue] at h
  split at h
  · next hname =>
    obtain ⟨taken, htaken, hrule⟩ := operand_obeys h
    obtain ⟨first, rest, rfl, _⟩ := hrule.start
    rw [htaken.kind] at hname
    exact ⟨_, htaken, .operand hname hrule⟩
  · next hname =>
    obtain ⟨taken, htaken, hrule⟩ := expr_obeys h
    obtain ⟨first, rest, rfl, _⟩ := hrule.start
    rw [htaken.kind] at hname
    exact ⟨_, htaken, .expr hname hrule⟩

/-- A derived value is read in front of the word that ends it. One that starts
with a name is a single operand there. -/
theorem usedValue_accepts {taken : List Token} {value : Expr}
    (h : IsUsedValue workspace taken value) {cursor after : Cursor}
    (htakes : cursor.Takes taken after) (hend : after.kind = .asWord) :
    ∃ hless, usedValue workspace cursor = .ok ⟨value, after, hless⟩ := by
  rw [usedValue]
  cases h with
  | operand hname hoperand =>
      rw [if_pos (htakes.kind.trans hname)]
      exact operand_accepts hoperand htakes (by rw [hend]; rfl)
  | expr hfirst hexpr =>
      rw [if_neg (by rw [htakes.kind]; exact hfirst)]
      exact expr_accepts hexpr htakes (by rw [hend]; rfl)

/-- A use that was read is derived, in the form with a pattern in front or in
that with a binding behind. -/
theorem useStatement_obeys {cursor : Cursor} {parsed : Parsed Use cursor}
    (h : useStatement workspace cursor = .ok parsed) :
    parsed.Obeys (IsUse .required workspace) := by
  rw [useStatement, inContext_eq_ok] at h
  obtain ⟨mark, hmark, h⟩ := bind_eq_ok.1 h
  obtain ⟨hmarkTakes, hmark⟩ := Cursor.takes_of_expect hmark
  split at h
  · next hopens =>
    obtain ⟨binding, hbinding, h⟩ := bind_eq_ok.1 h
    split at h
    · cases h
    · obtain ⟨fromWord, hfrom, h⟩ := bind_eq_ok.1 h
      obtain ⟨value, hvalue, h⟩ := bind_eq_ok.1 h
      obtain ⟨finish, hfinish, h⟩ := bind_eq_ok.1 h
      obtain ⟨tokens, htokens, leaves, hleaves, hgroup⟩ :=
        Parsed.obeys_of_thenRead hbinding pattern_obeys
      obtain ⟨_, hfromTakes, rfl, hfrom⟩ := Parsed.obeys_of_thenRead hfrom Cursor.expectAs_obeys
      obtain ⟨valueTokens, hvalueTakes, hvalue⟩ := Parsed.obeys_of_thenRead hvalue expr_obeys
      obtain ⟨_, hfinishTakes, rfl, hend⟩ :=
        Parsed.obeys_of_thenRead hfinish Cursor.expectAs_obeys
      cases h
      have hall : cursor.Takes
          (mark.value :: (tokens ++ fromWord.value :: (valueTokens ++ [finish.value])))
          finish.after := by
        simpa using hmarkTakes.trans
          (htokens.trans (hfromTakes.trans (hvalueTakes.trans hfinishTakes)))
      refine ⟨_, hall, ?_⟩
      dsimp only [Parsed.map]
      rw [hmarkTakes.current, hall.merge, hleaves]
      exact .pattern hmark hgroup ((hgroup.length_gt_two_iff htokens).2 hopens.2) hfrom hvalue hend
  · obtain ⟨value, hvalue, h⟩ := bind_eq_ok.1 h
    obtain ⟨asWord, has, h⟩ := bind_eq_ok.1 h
    obtain ⟨binding, hbinding, h⟩ := bind_eq_ok.1 h
    obtain ⟨finish, hfinish, h⟩ := bind_eq_ok.1 h
    obtain ⟨valueTokens, hvalueTakes, hvalue⟩ := Parsed.obeys_of_thenRead hvalue usedValue_obeys
    obtain ⟨_, hasTakes, rfl, has⟩ := Parsed.obeys_of_thenRead has Cursor.expectAs_obeys
    obtain ⟨tokens, htokens, hbinding⟩ := Parsed.obeys_of_thenRead hbinding binding_obeys
    obtain ⟨_, hfinishTakes, rfl, hend⟩ := Parsed.obeys_of_thenRead hfinish Cursor.expectAs_obeys
    cases h
    have hall : cursor.Takes
        (mark.value :: (valueTokens ++ asWord.value :: (tokens ++ [finish.value])))
        finish.after := by
      simpa using hmarkTakes.trans
        (hvalueTakes.trans (hasTakes.trans (htokens.trans hfinishTakes)))
    refine ⟨_, hall, ?_⟩
    dsimp only [Parsed.map]
    rw [hmarkTakes.current, hall.merge]
    exact .binding hmark hvalue has hbinding hend

/-- A derived use is read as derived. The two forms exclude each other by their
first tokens. -/
theorem useStatement_accepts {taken : List Token} {found : Use}
    (h : IsUse .required workspace taken found) {cursor after : Cursor}
    (htakes : cursor.Takes taken after) :
    ∃ hless, useStatement workspace cursor = .ok ⟨found, after, hless⟩ := by
  cases h with
  | binding hmark hvalue has hbinding hend =>
      obtain ⟨_, hmarkTakes, hfromValue⟩ := htakes.uncons
      obtain ⟨_, hvalueTakes, hfromAs⟩ := hfromValue.split
      obtain ⟨_, hasTakes, hfromBinding⟩ := hfromAs.uncons
      obtain ⟨_, hbindingTakes, hendTakes⟩ := hfromBinding.split
      obtain ⟨_, hmarkRead⟩ := hmarkTakes.expect hmark
      obtain ⟨_, hvalueRead⟩ := usedValue_accepts hvalue hvalueTakes (hfromAs.kind.trans has)
      obtain ⟨_, hasRead⟩ := hasTakes.expect has
      obtain ⟨_, hbindingRead⟩ := binding_accepts hbinding hbindingTakes
      obtain ⟨_, hendRead⟩ := hendTakes.expect hend
      refine ⟨htakes.shorter, inContext_eq_ok.2 ?_⟩
      rw [bind_of_ok hmarkRead]
      dsimp only
      rw [if_neg (hvalue.opens_no_pattern hfromValue),
        bind_of_ok (Parsed.thenRead_of_ok hvalueRead),
        bind_of_ok (Parsed.thenRead_of_ok hasRead),
        bind_of_ok (Parsed.thenRead_of_ok hbindingRead),
        bind_of_ok (Parsed.thenRead_of_ok hendRead), hmarkTakes.current]
      dsimp only
      rw [htakes.merge]
      rfl
  | pattern hmark hgroup hsome hfrom hvalue hend =>
      obtain ⟨_, hmarkTakes, hfromGroup⟩ := htakes.uncons
      obtain ⟨_, hgroupTakes, hfromFrom⟩ := hfromGroup.split
      obtain ⟨_, hfromTakes, hfromValue⟩ := hfromFrom.uncons
      obtain ⟨_, hvalueTakes, hendTakes⟩ := hfromValue.split
      obtain ⟨_, hmarkRead⟩ := hmarkTakes.expect hmark
      obtain ⟨_, hgroupRead⟩ := pattern_accepts hgroup hgroupTakes
      obtain ⟨_, hfromRead⟩ := hfromTakes.expectAs hfrom "\"from\" after the bindings"
      obtain ⟨_, hvalueRead⟩ := expr_accepts hvalue hvalueTakes
        (by rw [hendTakes.kind, hend]; rfl)
      obtain ⟨_, hendRead⟩ := hendTakes.expect hend
      have hopens := (hgroup.length_gt_two_iff hgroupTakes).1 hsome
      obtain ⟨opening, _, rfl, hopening⟩ := hgroup.start
      refine ⟨htakes.shorter, inContext_eq_ok.2 ?_⟩
      rw [bind_of_ok hmarkRead]
      dsimp only
      rw [if_pos ⟨hfromGroup.kind.trans hopening, hopens⟩,
        bind_of_ok (Parsed.thenRead_of_ok hgroupRead)]
      dsimp only
      rw [if_neg (by simp [hfromFrom.kind, hfrom]),
        bind_of_ok (Parsed.thenRead_of_ok hfromRead),
        bind_of_ok (Parsed.thenRead_of_ok hvalueRead),
        bind_of_ok (Parsed.thenRead_of_ok hendRead), hmarkTakes.current]
      dsimp only
      rw [htakes.merge]
      rfl

end ConfigNotation
