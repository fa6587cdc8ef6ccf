import ConfigNotation.Proofs.Syntax.Takes

/-!
Expressions are read as the grammar derives them. Each reader is followed in both
directions, and by the tokens that are left in both.
-/

namespace ConfigNotation

open Grammar ConfigNotation.Parser

theorem readFile_eq_ok_iff {workspace : Workspace} {token : Token} {file : FileRef}
    (hkind : token.kind = .file) :
    Literal.readFile workspace token.text.toList = .ok file ↔ NamesFile workspace token file := by
  rcases hparts : fileParts token with ⟨quoted, name⟩
  have hsplit : (Text.splitAtLast? "\".".toList token.text.toList).getD (token.text.toList, []) =
      (quoted, name) := hparts
  rw [Literal.readFile, hsplit]
  dsimp only
  constructor
  · intro h
    cases hencoding : Encoding.ofChars? name with
    | none => simp only [hencoding, reduceCtorEq] at h
    | some encoding =>
        simp only [hencoding] at h
        split at h
        · cases h
        · next hpresent =>
          split at h
          · cases h
          · next hfile =>
            obtain rfl := Except.ok.inj h
            constructor
            · exact hkind
            · rw [hparts]
              exact hencoding
            · rw [hparts]
            · simpa using hpresent
            · simpa using hfile
  · intro h
    have hencoding := h.encoding
    have hpath := h.path
    rw [hparts] at hencoding hpath
    simp only [hencoding, ← hpath, h.present, h.isFile, Bool.not_true, Bool.false_eq_true,
      if_false]

/-- A literal token is read exactly as the rule of literals derives it. The
conditions on paths and patterns sit in that rule, so the grammar needs no
reader. -/
theorem isLiteral_iff {workspace : Workspace} {token : Token} {value : Literal}
    (hkind : token.kind.isLiteral = true) :
    Literal.ofToken workspace token = .ok value ↔ IsLiteral workspace token value := by
  by_cases hfile : token.kind = .file
  · have hread : Literal.ofToken workspace token =
        (Literal.readFile workspace token.text.toList).map .file := by
      rw [Literal.ofToken, hfile]
    rw [hread]
    constructor
    · intro h
      cases hresult : Literal.readFile workspace token.text.toList with
      | error fault =>
          rw [hresult] at h
          cases h
      | ok file =>
          rw [hresult] at h
          cases h
          exact .file ((readFile_eq_ok_iff hfile).1 hresult)
    · intro h
      cases h with
      | file hnames =>
          rw [(readFile_eq_ok_iff hfile).2 hnames]
          rfl
      | plain _ hother _ => exact absurd hfile hother
  · constructor
    · exact .plain hkind hfile
    · intro h
      cases h with
      | file hnames => exact absurd hnames.kind hfile
      | plain _ _ hvalue => exact hvalue

section

variable {workspace : Workspace}

/-- The kind of a container that some members in front do not change any more. -/
structure Continues (before : ContainerKind) (members : List (Member Expr))
    (kind : ContainerKind) : Prop where
  kept : before = .unknown ∨ kind = before
  same : ∀ member ∈ members, memberKind member = .unknown ∨ memberKind member = kind
  fixed : kind = before ∨ ∃ member ∈ members, memberKind member = kind

theorem continues_unknown_iff {members : List (Member Expr)} {kind : ContainerKind} :
    Continues .unknown members kind ↔ FixesKind members kind :=
  ⟨fun h => ⟨h.same, h.fixed⟩, fun h => ⟨.inl rfl, h.same, h.fixed⟩⟩

theorem Continues.nil (kind : ContainerKind) : Continues kind [] kind :=
  ⟨.inr rfl, nofun, .inl rfl⟩

theorem continues_nil_iff {before kind : ContainerKind} :
    Continues before [] kind ↔ kind = before := by
  constructor
  · intro h
    rcases h.fixed with heq | ⟨_, hmember, _⟩
    · exact heq
    · cases hmember
  · rintro rfl
    exact .nil _

theorem continues_spread_iff {before kind : ContainerKind} {value : Expr}
    {members : List (Member Expr)} :
    Continues before (.spread value :: members) kind ↔ Continues before members kind := by
  constructor
  · intro h
    refine ⟨h.kept, (List.forall_mem_cons.1 h.same).2, ?_⟩
    rcases h.fixed with heq | ⟨member, hmember, hkind⟩
    · exact .inl heq
    · rcases List.mem_cons.1 hmember with rfl | hmember
      · rcases h.kept with hunknown | hkept
        · exact .inl (hkind.symm.trans hunknown.symm)
        · exact .inl hkept
      · exact .inr ⟨member, hmember, hkind⟩
  · intro h
    refine ⟨h.kept, List.forall_mem_cons.2 ⟨.inl rfl, h.same⟩, ?_⟩
    rcases h.fixed with heq | ⟨member, hmember, hkind⟩
    · exact .inl heq
    · exact .inr ⟨member, List.mem_cons_of_mem _ hmember, hkind⟩

/-- A key continues what is not known, or a container of its own kind. -/
theorem continues_key_iff {before kind : ContainerKind} {member : Member Expr}
    {members : List (Member Expr)} (hkey : memberKind member ≠ .unknown) :
    Continues before (member :: members) kind ↔
      (before = .unknown ∨ before = memberKind member) ∧
        Continues (memberKind member) members kind := by
  constructor
  · intro h
    obtain ⟨hfirst, hsame⟩ := List.forall_mem_cons.1 h.same
    have hkind : kind = memberKind member := (hfirst.resolve_left hkey).symm
    refine ⟨?_, .inr hkind, hsame, .inl hkind⟩
    exact h.kept.imp_right fun hkept => hkept.symm.trans hkind
  · rintro ⟨hbefore, h⟩
    have hkind : kind = memberKind member := h.kept.resolve_left hkey
    refine ⟨?_, List.forall_mem_cons.2 ⟨.inr hkind.symm, h.same⟩,
      .inr ⟨member, List.mem_cons_self, hkind.symm⟩⟩
    exact hbefore.imp_right fun hsame => hkind.trans hsame.symm

theorem Grammar.IsContainer.ne_nil {taken : List Token} {body : Container Expr}
    (h : IsContainer workspace taken body) :
    taken ≠ [] := by
  cases h
  exact nofun

theorem keyedMember_of_assocKey {key : Token} {value : Expr} (hkey : key.kind = .assocKey) :
    keyedMember key value = .property (keyName key) value :=
  if_pos hkey

theorem keyedMember_of_numericKey {key : Token} {value : Expr} (hkey : key.kind = .numericKey) :
    keyedMember key value = .element value :=
  if_neg (by simp [hkey])

/-- A key with its value is the member that its mark says. -/
theorem Grammar.AreMembers.keyed {key arrow semicolon : Token} {taken rest : List Token}
    {value : Expr} {others : List (Member Expr)}
    (hkey : key.kind = .assocKey ∨ key.kind = .numericKey)
    (harrow : arrow.kind = .arrow) (hvalue : IsExpr workspace taken value)
    (hend : semicolon.kind = .semicolon) (hrest : AreMembers workspace rest others) :
    AreMembers workspace (key :: arrow :: (taken ++ semicolon :: rest))
      (keyedMember key value :: others) := by
  rcases hkey with hkey | hkey
  · rw [keyedMember_of_assocKey hkey]
    exact .property hkey harrow hvalue hend hrest
  · rw [keyedMember_of_numericKey hkey]
    exact .element hkey harrow hvalue hend hrest

theorem memberKind_keyedMember (key : Token) (value : Expr) :
    memberKind (keyedMember key value) = keyKind key.kind := by
  rw [keyedMember, keyKind]
  split <;> rfl

theorem keyKind_ne_unknown (kind : TokenKind) : keyKind kind ≠ .unknown := by
  rw [keyKind]
  split <;> simp

/-- A member with a key fixes the kind of its container, or has to fit the kind
that those in front of it fixed. This is the only place where the kinds meet. -/
theorem continues_keyed_iff {before kind : ContainerKind} {key : Token} {value : Expr}
    {members : List (Member Expr)} :
    Continues before (keyedMember key value :: members) kind ↔
      (before = .unknown ∨ before = keyKind key.kind) ∧
        Continues (keyKind key.kind) members kind := by
  rw [← memberKind_keyedMember key value]
  apply continues_key_iff
  rw [memberKind_keyedMember]
  exact keyKind_ne_unknown _

mutual

/-- What the reader of expressions accepts is derived by the grammar from the
tokens that it took. The readers of the group are proved together, as they are
defined. -/
theorem expr_obeys {cursor : Cursor} {parsed : Parsed Expr cursor}
    (h : expr workspace cursor = .ok parsed) :
    parsed.Obeys (IsExpr workspace) := by
  rw [expr] at h
  obtain ⟨⟨left, afterLeft, hleft⟩, hoperand, h⟩ := bind_eq_ok.1 h
  obtain ⟨first, hfirst, hleftRule⟩ := operand_obeys hoperand
  dsimp only at h
  cases hquestion : afterLeft.take? .question with
  | none =>
      rw [hquestion] at h
      cases h
      exact ⟨first, hfirst, .operand hleftRule⟩
  | some mark =>
      obtain ⟨mark, afterMark, hmark⟩ := mark
      rw [hquestion] at h
      obtain ⟨⟨right, afterRight, hright⟩, hoperand, h⟩ := bind_eq_ok.1 h
      obtain ⟨second, hsecond, hrightRule⟩ := operand_obeys hoperand
      obtain ⟨htakes, hkind⟩ := Cursor.takes_of_take? hquestion
      cases h
      exact ⟨_, hfirst.trans (htakes.trans hsecond), .conditional hleftRule hkind hrightRule⟩
termination_by 4 * cursor.tokens.length + 2

theorem operand_obeys {cursor : Cursor} {parsed : Parsed Expr cursor}
    (h : operand workspace cursor = .ok parsed) :
    parsed.Obeys (IsOperand workspace) := by
  rw [operand] at h
  cases hnext : cursor.next? with
  | none =>
      rw [hnext] at h
      cases h
  | some first =>
      obtain ⟨token, after, hafter⟩ := first
      have hfirst := Cursor.takes_of_next? hnext
      rw [hnext] at h
      dsimp only at h
      split at h
      · next hkind =>
        obtain ⟨⟨body, afterBody, hbody⟩, hcontainer, h⟩ := bind_eq_ok.1 h
        obtain ⟨taken, htaken, hrule⟩ := container_obeys hcontainer
        cases h
        refine ⟨taken, htaken, ?_⟩
        rw [htaken.merge_first hfirst hrule.ne_nil]
        exact .container hrule
      · next hkind =>
        cases h
        exact ⟨_, hfirst, .path hkind⟩
      · next hkind =>
        split at h
        · obtain ⟨⟨arguments, afterCall, hcall⟩, hread, h⟩ := bind_eq_ok.1 h
          rw [inContext_eq_ok] at hread
          obtain ⟨taken, htaken, opening, inner, closing, rfl, hopening, hrule, hclosing⟩ :=
            callArguments_obeys hread
          cases h
          have hall := hfirst.trans htaken
          refine ⟨_, hall, ?_⟩
          rw [hall.merge]
          exact .call hkind hopening hrule hclosing
        · obtain ⟨⟨body, afterBody, hbody⟩, hcontainer, h⟩ := bind_eq_ok.1 h
          obtain ⟨taken, htaken, hrule⟩ := container_obeys hcontainer
          cases h
          have hall := hfirst.trans htaken
          refine ⟨_, hall, ?_⟩
          rw [hall.merge]
          exact .classInstance hkind hrule
        · cases h
          exact ⟨_, hfirst, .name hkind⟩
      · split at h
        · next hliteral =>
          split at h
          · next hvalue =>
            cases h
            exact ⟨_, hfirst, .literal ((isLiteral_iff hliteral).1 hvalue)⟩
          · cases h
        · cases h
termination_by 4 * cursor.tokens.length + 1

theorem container_obeys {cursor : Cursor} {parsed : Parsed (Container Expr) cursor}
    (h : container workspace cursor = .ok parsed) :
    parsed.Obeys (IsContainer workspace) := by
  rw [container, inContext_eq_ok] at h
  obtain ⟨⟨opening, afterOpening, hopening⟩, hexpect, h⟩ := bind_eq_ok.1 h
  obtain ⟨⟨body, afterBody, hbody⟩, hmembers, h⟩ := bind_eq_ok.1 h
  obtain ⟨htakes, hkind⟩ := Cursor.takes_of_expect hexpect
  obtain ⟨_, hrest, _, hclosing, hrule, hcontinues⟩ := members_obeys hmembers
  cases h
  exact ⟨_, htakes.trans hrest, .intro hkind hrule (continues_unknown_iff.1 hcontinues) hclosing⟩
termination_by 4 * cursor.tokens.length

/-- The members that were read are derived from the tokens up to the bracket,
and the kind that is returned continues the one that was handed in. -/
theorem members_obeys {kind : ContainerKind} {cursor : Cursor}
    {parsed : Parsed (Container Expr) cursor} (h : members workspace kind cursor = .ok parsed) :
    parsed.Obeys (UpTo .rightBracket fun inner body =>
      AreMembers workspace inner body.members ∧ Continues kind body.members body.kind) := by
  rw [members] at h
  cases hend : cursor.take? .rightBracket with
  | some closing =>
      obtain ⟨closing, after, hafter⟩ := closing
      obtain ⟨htakes, hclosing⟩ := Cursor.takes_of_take? hend
      rw [hend] at h
      cases h
      exact ⟨_, htakes, .nil hclosing ⟨.nil, .nil kind⟩⟩
  | none =>
      have hopen := Cursor.kind_ne_of_take? hend (by simp)
      rw [hend] at h
      cases hnext : cursor.next? with
      | none =>
          rw [hnext] at h
          cases h
      | some first =>
          obtain ⟨token, after, hafter⟩ := first
          have hfirst := Cursor.takes_of_next? hnext
          rw [hnext] at h
          dsimp only at h
          split at h
          case h_1 hkind =>
            obtain ⟨⟨value, afterValue, hvalueLess⟩, hexpr, h⟩ := bind_eq_ok.1 h
            obtain ⟨⟨semicolon, afterEnd, hendLess⟩, hexpect, h⟩ := bind_eq_ok.1 h
            obtain ⟨rest, hmembers, h⟩ := bind_eq_ok.1 h
            have hless : afterEnd.tokens.length < cursor.tokens.length :=
              Nat.lt_trans hendLess (Nat.lt_trans hvalueLess hafter)
            obtain ⟨taken, htaken, hvalue⟩ := expr_obeys hexpr
            obtain ⟨hsemicolon, hendKind⟩ := Cursor.takes_of_expect hexpect
            cases h
            refine (members_obeys hmembers).behind (hfirst.trans (htaken.trans hsemicolon)) hopen ?_
            rintro inner last - ⟨hrule, hcontinues⟩
            have hmembers := AreMembers.spread hkind hvalue hendKind hrule
            exact ⟨by simpa using hmembers, continues_spread_iff.2 hcontinues⟩
          case h_4 => cases h
          -- the two kinds of keys are read alike
          all_goals
            rename_i hkind
            have hkey : token.kind = .assocKey ∨ token.kind = .numericKey := by simp [hkind]
            split at h
            · cases h
            · next hwanted =>
              obtain ⟨⟨arrow, afterArrow, harrowLess⟩, harrowRead, h⟩ := bind_eq_ok.1 h
              obtain ⟨⟨value, afterValue, hvalueLess⟩, hexpr, h⟩ := bind_eq_ok.1 h
              obtain ⟨⟨semicolon, afterEnd, hendLess⟩, hexpect, h⟩ := bind_eq_ok.1 h
              obtain ⟨rest, hmembers, h⟩ := bind_eq_ok.1 h
              have hvalueFrom : afterArrow.tokens.length < cursor.tokens.length :=
                Nat.lt_trans harrowLess hafter
              have hless : afterEnd.tokens.length < cursor.tokens.length :=
                Nat.lt_trans hendLess (Nat.lt_trans hvalueLess hvalueFrom)
              obtain ⟨harrow, harrowKind⟩ := Cursor.takes_of_expect harrowRead
              obtain ⟨taken, htaken, hvalue⟩ := expr_obeys hexpr
              obtain ⟨hsemicolon, hendKind⟩ := Cursor.takes_of_expect hexpect
              cases h
              refine (members_obeys hmembers).behind
                (hfirst.trans (harrow.trans (htaken.trans hsemicolon))) hopen ?_
              rintro inner last - ⟨hrule, hcontinues⟩
              have hmembers := AreMembers.keyed hkey harrowKind hvalue hendKind hrule
              refine ⟨by simpa using hmembers, continues_keyed_iff.2 ⟨?_, hcontinues⟩⟩
              exact Decidable.or_iff_not_not_and_not.2 hwanted
termination_by 4 * cursor.tokens.length + 3

theorem callArguments_obeys {cursor : Cursor} {parsed : Parsed (List (Argument Expr)) cursor}
    (h : callArguments workspace cursor = .ok parsed) :
    parsed.Obeys fun taken arguments => ∃ opening inner closing,
      taken = opening :: (inner ++ [closing]) ∧ opening.kind = .leftParen ∧
        AreArguments workspace inner arguments ∧ closing.kind = .rightParen := by
  rw [callArguments] at h
  obtain ⟨⟨opening, afterOpening, hopening⟩, hexpect, h⟩ := bind_eq_ok.1 h
  obtain ⟨⟨arguments, after, hafter⟩, hread, h⟩ := bind_eq_ok.1 h
  obtain ⟨htakes, hkind⟩ := Cursor.takes_of_expect hexpect
  obtain ⟨_, hrest, @⟨inner, closing, _, hstart, hclosing, hrule⟩⟩ := argumentsUpToEnd_obeys hread
  cases h
  exact ⟨_, htakes.trans hrest, opening, inner, closing, rfl, hkind, hrule, hclosing⟩
termination_by 4 * cursor.tokens.length

theorem argumentsUpToEnd_obeys {cursor : Cursor} {parsed : Parsed (List (Argument Expr)) cursor}
    (h : argumentsUpToEnd workspace cursor = .ok parsed) :
    parsed.Obeys (UpTo .rightParen (AreArguments workspace)) := by
  rw [argumentsUpToEnd] at h
  cases hend : cursor.take? .rightParen with
  | some closing =>
      obtain ⟨closing, after, hafter⟩ := closing
      obtain ⟨htakes, hclosing⟩ := Cursor.takes_of_take? hend
      rw [hend] at h
      cases h
      exact ⟨_, htakes, .nil hclosing .nil⟩
  | none =>
      have hopen := Cursor.kind_ne_of_take? hend (by simp)
      rw [hend] at h
      dsimp only at h
      obtain ⟨⟨value, afterValue, hvalueLess⟩, hexpr, h⟩ := bind_eq_ok.1 h
      split at h
      · cases h
      · next hended =>
        obtain ⟨others, hread, h⟩ := bind_eq_ok.1 h
        have hmarkLess := (cursor.eat .spread).noLonger
        have hless : (afterValue.eat .comma).after.tokens.length < cursor.tokens.length :=
          Nat.lt_of_le_of_lt (afterValue.eat .comma).noLonger
            (Nat.lt_of_lt_of_le hvalueLess hmarkLess)
        obtain ⟨mark, hmark, hmarkTakes, _⟩ := cursor.eat_spec .spread (by simp)
        obtain ⟨taken, htaken, hvalue⟩ := expr_obeys hexpr
        cases h
        refine (argumentsUpToEnd_obeys hread).behindItem (hmarkTakes.trans htaken) hopen (by simp)
          hended fun hends _ hrule => ?_
        rw [List.append_assoc]
        exact .cons hmark hvalue hends hrule
termination_by 4 * cursor.tokens.length + 3

end

/-- What may stand behind an operand: no bracket, which would belong to its
name. -/
def endsOperand : TokenKind → Bool
  | .leftParen | .leftBracket => false
  | _ => true

/-- What may stand behind an expression: in addition, no question mark. -/
def endsExpr (kind : TokenKind) : Bool := kind ≠ .question && endsOperand kind

theorem endsOperand_of_endsExpr {kind : TokenKind} (h : endsExpr kind = true) :
    endsOperand kind = true :=
  (Bool.and_eq_true_iff.1 h).2

theorem ne_question_of_endsExpr {kind : TokenKind} (h : endsExpr kind = true) :
    kind ≠ .question :=
  of_decide_eq_true (Bool.and_eq_true_iff.1 h).1

theorem Grammar.IsLiteral.isLiteral {token : Token} {value : Literal}
    (h : IsLiteral workspace token value) : token.kind.isLiteral = true := by
  cases h with
  | file hfile => rw [hfile.kind]; rfl
  | plain hkind _ _ => exact hkind

theorem Grammar.IsContainer.start {taken : List Token} {body : Container Expr}
    (h : IsContainer workspace taken body) :
    ∃ first rest, taken = first :: rest ∧ first.kind = .leftBracket := by
  cases h with
  | intro hopening _ _ _ => exact ⟨_, _, rfl, hopening⟩

theorem startsValue_of_isLiteral {kind : TokenKind} (h : kind.isLiteral = true) :
    startsValue kind = true := by
  rw [startsValue.eq_def]
  split
  case h_4 => exact h
  all_goals rfl

theorem Grammar.IsOperand.start {taken : List Token} {value : Expr}
    (h : IsOperand workspace taken value) :
    ∃ first rest, taken = first :: rest ∧ startsValue first.kind = true := by
  cases h with
  | container hbody =>
      obtain ⟨first, rest, htaken, hfirst⟩ := hbody.start
      exact ⟨first, rest, htaken, by rw [hfirst]; rfl⟩
  | literal hliteral => exact ⟨_, _, rfl, startsValue_of_isLiteral hliteral.isLiteral⟩
  | path hkind => exact ⟨_, _, rfl, by rw [hkind]; rfl⟩
  | name hkind => exact ⟨_, _, rfl, by rw [hkind]; rfl⟩
  | call hname => exact ⟨_, _, rfl, by rw [hname]; rfl⟩
  | classInstance hname => exact ⟨_, _, rfl, by rw [hname]; rfl⟩

/-- Every expression starts with a token that a value can start with, which is
what lets a statement be told from an expression by one token. -/
theorem Grammar.IsExpr.start {taken : List Token} {value : Expr}
    (h : IsExpr workspace taken value) :
    ∃ first rest, taken = first :: rest ∧ startsValue first.kind = true := by
  cases h with
  | operand hoperand => exact hoperand.start
  | conditional hleft _ _ =>
      obtain ⟨first, rest, rfl, hfirst⟩ := hleft.start
      exact ⟨first, _, rfl, hfirst⟩

/-- Arguments in parentheses are read if those between them are, for any
derivation. The parentheses are what ends the list, so nothing is asked of what
follows. -/
theorem callArguments_accepts {inner : List Token} {arguments : List (Argument Expr)}
    {opening closing : Token} (hopening : opening.kind = .leftParen) {cursor after : Cursor}
    (htakes : cursor.Takes (opening :: (inner ++ [closing])) after)
    (hread : ∀ {behind : Cursor}, behind.Takes (inner ++ [closing]) after →
      ∃ hless, argumentsUpToEnd workspace behind = .ok ⟨arguments, after, hless⟩) :
    ∃ hless, callArguments workspace cursor = .ok ⟨arguments, after, hless⟩ := by
  obtain ⟨_, hfirst, hrest⟩ := htakes.uncons
  obtain ⟨_, hexpect⟩ := hfirst.expect hopening
  obtain ⟨_, hread⟩ := hread hrest
  rw [callArguments, bind_of_ok hexpect]
  dsimp only
  rw [bind_of_ok hread]
  exact ⟨_, rfl⟩

/-- A container as an operand covers what the container covers. -/
theorem operand_of_container {taken : List Token} {body : Container Expr}
    (hbody : IsContainer workspace taken body) {cursor after : Cursor}
    (htakes : cursor.Takes taken after)
    (hread : ∀ {start stop : Cursor}, start.Takes taken stop →
      ∃ hless, container workspace start = .ok ⟨body, stop, hless⟩) :
    ∃ hless, operand workspace cursor = .ok ⟨.container (spanOf taken) body, after, hless⟩ := by
  obtain ⟨opening, rest, rfl, hopening⟩ := hbody.start
  obtain ⟨_, hfirst, _⟩ := htakes.uncons
  obtain ⟨_, hnext⟩ := hfirst.next?
  obtain ⟨_, hread⟩ := hread htakes
  rw [operand, hnext]
  dsimp only
  rw [hopening]
  dsimp only
  rw [bind_of_ok hread]
  dsimp only
  rw [htakes.merge]
  exact ⟨_, rfl⟩

theorem operand_of_literal {token : Token} {value : Literal}
    (hliteral : IsLiteral workspace token value) {cursor after : Cursor}
    (htakes : cursor.Takes [token] after) :
    ∃ hless, operand workspace cursor = .ok ⟨.literal token.span value, after, hless⟩ := by
  obtain ⟨_, hnext⟩ := htakes.next?
  have hkind := hliteral.isLiteral
  rw [operand, hnext]
  dsimp only
  split
  case h_4 =>
    rw [if_pos hkind, (isLiteral_iff hkind).2 hliteral]
    exact ⟨htakes.shorter, rfl⟩
  all_goals
    rename_i hother
    rw [hother] at hkind
    cases hkind

/-- A name stands for itself only if neither arguments nor a body follow it. -/
theorem operand_of_name {token : Token} (hkind : token.kind = .ident) {cursor after : Cursor}
    (htakes : cursor.Takes [token] after) (hend : endsOperand after.kind = true) :
    ∃ hless, operand workspace cursor = .ok ⟨.ident token.span token.text, after, hless⟩ := by
  obtain ⟨_, hnext⟩ := htakes.next?
  rw [operand, hnext]
  dsimp only
  rw [hkind]
  dsimp only
  split
  case h_3 => exact ⟨htakes.shorter, rfl⟩
  all_goals
    rename_i hother
    rw [hother] at hend
    cases hend

theorem operand_of_call {name opening closing : Token} {inner : List Token}
    {arguments : List (Argument Expr)} (hname : name.kind = .ident)
    (hopening : opening.kind = .leftParen) {cursor after : Cursor}
    (htakes : cursor.Takes (name :: opening :: (inner ++ [closing])) after)
    (hread : ∀ {start stop : Cursor}, start.Takes (inner ++ [closing]) stop →
      ∃ hless, argumentsUpToEnd workspace start = .ok ⟨arguments, stop, hless⟩) :
    ∃ hless, operand workspace cursor =
      .ok ⟨.call (spanOf (name :: opening :: (inner ++ [closing]))) name.text arguments,
        after, hless⟩ := by
  obtain ⟨_, hfirst, hrest⟩ := htakes.uncons
  obtain ⟨_, hnext⟩ := hfirst.next?
  obtain ⟨_, hread⟩ := callArguments_accepts hopening hrest hread
  rw [operand, hnext]
  dsimp only
  rw [hname, hrest.kind.trans hopening]
  dsimp only
  rw [bind_of_ok (inContext_eq_ok.2 hread)]
  dsimp only
  rw [htakes.merge]
  exact ⟨_, rfl⟩

theorem operand_of_classInstance {name : Token} {tokens : List Token} {body : Container Expr}
    (hname : name.kind = .ident) (hbody : IsContainer workspace tokens body)
    {cursor after : Cursor} (htakes : cursor.Takes (name :: tokens) after)
    (hread : ∀ {start stop : Cursor}, start.Takes tokens stop →
      ∃ hless, container workspace start = .ok ⟨body, stop, hless⟩) :
    ∃ hless, operand workspace cursor =
      .ok ⟨.classInstance (spanOf (name :: tokens)) name.text body, after, hless⟩ := by
  obtain ⟨_, hfirst, hrest⟩ := htakes.uncons
  obtain ⟨_, hnext⟩ := hfirst.next?
  obtain ⟨opening, rest, rfl, hopening⟩ := hbody.start
  obtain ⟨_, hread⟩ := hread hrest
  rw [operand, hnext]
  dsimp only
  rw [hname, hrest.kind.trans hopening]
  dsimp only
  rw [bind_of_ok hread]
  dsimp only
  rw [htakes.merge]
  exact ⟨_, rfl⟩

/-- A spread, its value and its semicolon, before the members that are left. -/
theorem members_of_spread {kind before : ContainerKind} {mark semicolon : Token}
    {tokens rest : List Token} {value : Expr} {others : List (Member Expr)}
    {cursor after : Cursor} (hmark : mark.kind = .spread) (hend : semicolon.kind = .semicolon)
    (htakes : cursor.Takes (mark :: (tokens ++ semicolon :: rest)) after)
    (hvalue : ∀ {start stop : Cursor}, start.Takes tokens stop → endsExpr stop.kind = true →
      ∃ hless, expr workspace start = .ok ⟨value, stop, hless⟩)
    (hrest : ∀ {next : Cursor}, next.Takes rest after →
      ∃ hless, Parser.members workspace before next = .ok ⟨⟨kind, others⟩, after, hless⟩) :
    ∃ hless, Parser.members workspace before cursor =
      .ok ⟨⟨kind, .spread value :: others⟩, after, hless⟩ := by
  obtain ⟨_, hfirst, hbehind⟩ := htakes.uncons
  obtain ⟨_, hvalueTakes, hbehind⟩ := hbehind.split
  obtain ⟨_, hsemicolon, hbehind⟩ := hbehind.uncons
  have hopen : cursor.take? .rightBracket = none :=
    Cursor.take?_of_kind_ne (by simp [htakes.kind, hmark])
  obtain ⟨_, hnext⟩ := hfirst.next?
  obtain ⟨_, hread⟩ := hvalue hvalueTakes (by rw [hsemicolon.kind, hend]; rfl)
  obtain ⟨_, hexpect⟩ := hsemicolon.expect hend
  obtain ⟨_, hothers⟩ := hrest hbehind
  rw [Parser.members, hopen, hnext]
  simp only [hmark, bind_of_ok hread, bind_of_ok hexpect, bind_of_ok hothers]
  exact ⟨htakes.shorter, rfl⟩

/-- The two kinds of keys are read alike. A key goes with what is not known, or
with keys of its own kind. -/
theorem members_of_keyed {kind before : ContainerKind} {key arrow semicolon : Token}
    {tokens rest : List Token} {value : Expr} {others : List (Member Expr)}
    {cursor after : Cursor} (hkey : key.kind = .assocKey ∨ key.kind = .numericKey)
    (harrow : arrow.kind = .arrow) (hend : semicolon.kind = .semicolon)
    (hbefore : before = .unknown ∨ before = keyKind key.kind)
    (htakes : cursor.Takes (key :: arrow :: (tokens ++ semicolon :: rest)) after)
    (hvalue : ∀ {start stop : Cursor}, start.Takes tokens stop → endsExpr stop.kind = true →
      ∃ hless, expr workspace start = .ok ⟨value, stop, hless⟩)
    (hrest : ∀ {next : Cursor}, next.Takes rest after → ∃ hless,
      Parser.members workspace (keyKind key.kind) next = .ok ⟨⟨kind, others⟩, after, hless⟩) :
    ∃ hless, Parser.members workspace before cursor =
      .ok ⟨⟨kind, keyedMember key value :: others⟩, after, hless⟩ := by
  obtain ⟨_, hfirst, hbehind⟩ := htakes.uncons
  obtain ⟨_, harrowTakes, hbehind⟩ := hbehind.uncons
  obtain ⟨_, hvalueTakes, hbehind⟩ := hbehind.split
  obtain ⟨_, hsemicolon, hbehind⟩ := hbehind.uncons
  have hopen : cursor.take? .rightBracket = none := by
    apply Cursor.take?_of_kind_ne
    rcases hkey with hkey | hkey <;> simp [htakes.kind, hkey]
  obtain ⟨_, hnext⟩ := hfirst.next?
  obtain ⟨_, harrowRead⟩ := harrowTakes.expect harrow
  obtain ⟨_, hread⟩ := hvalue hvalueTakes (by rw [hsemicolon.kind, hend]; rfl)
  obtain ⟨_, hexpect⟩ := hsemicolon.expect hend
  obtain ⟨_, hothers⟩ := hrest hbehind
  have hsame : ¬(before ≠ .unknown ∧ before ≠ keyKind key.kind) :=
    Decidable.or_iff_not_not_and_not.1 hbefore
  refine ⟨htakes.shorter, ?_⟩
  rw [Parser.members, hopen, hnext]
  rcases hkey with hkey | hkey
  all_goals
    rw [hkey] at hsame hothers
    dsimp only
    rw [hkey]
    dsimp only
    rw [if_neg hsame, bind_of_ok harrowRead]
    dsimp only
    rw [bind_of_ok hread]
    dsimp only
    rw [bind_of_ok hexpect]
    exact bind_of_ok hothers

mutual

/-- What the grammar derives is read back, provided that no question mark or
bracket follows: behind a shorter expression these would be taken as well. -/
theorem expr_accepts {taken : List Token} {value : Expr} (h : IsExpr workspace taken value)
    {cursor after : Cursor} (htakes : cursor.Takes taken after)
    (hend : endsExpr after.kind = true) :
    ∃ hless, expr workspace cursor = .ok ⟨value, after, hless⟩ := by
  match h with
  | .operand hoperand =>
      obtain ⟨_, hread⟩ := operand_accepts hoperand htakes (endsOperand_of_endsExpr hend)
      rw [expr, bind_of_ok hread]
      dsimp only
      rw [Cursor.take?_of_kind_ne (ne_question_of_endsExpr hend)]
      exact ⟨_, rfl⟩
  | .conditional hleft hmark hright =>
      obtain ⟨afterLeft, hleftTakes, hrest⟩ := htakes.split
      obtain ⟨afterMark, hmarkTakes, hrightTakes⟩ := hrest.uncons
      have hquestion : afterLeft.kind = .question := hmarkTakes.kind.trans hmark
      obtain ⟨_, hreadLeft⟩ := operand_accepts hleft hleftTakes (by rw [hquestion]; rfl)
      obtain ⟨_, htake⟩ := hmarkTakes.take? hmark
      obtain ⟨_, hreadRight⟩ := operand_accepts hright hrightTakes (endsOperand_of_endsExpr hend)
      rw [expr, bind_of_ok hreadLeft]
      dsimp only
      rw [htake]
      dsimp only
      rw [bind_of_ok hreadRight]
      exact ⟨_, rfl⟩
termination_by structural h

/-- An operand that is derived is read as derived. A name is the one case in
which the token behind it matters, since a bracket would make it an instance or
a call. -/
theorem operand_accepts {taken : List Token} {value : Expr} (h : IsOperand workspace taken value)
    {cursor after : Cursor} (htakes : cursor.Takes taken after)
    (hend : endsOperand after.kind = true) :
    ∃ hless, operand workspace cursor = .ok ⟨value, after, hless⟩ := by
  match h with
  | .container hbody => exact operand_of_container hbody htakes (container_accepts hbody)
  | .literal hliteral => exact operand_of_literal hliteral htakes
  | .path hkind =>
      obtain ⟨_, hnext⟩ := htakes.next?
      rw [operand, hnext]
      dsimp only
      rw [hkind]
      exact ⟨_, rfl⟩
  | .name hkind => exact operand_of_name hkind htakes hend
  | .call hname hopening harguments hclosing =>
      exact operand_of_call hname hopening htakes
        (argumentsUpToEnd_accepts harguments hclosing)
  | .classInstance hname hbody =>
      exact operand_of_classInstance hname hbody htakes (container_accepts hbody)
termination_by structural h

theorem container_accepts {taken : List Token} {body : Container Expr}
    (h : IsContainer workspace taken body) {cursor after : Cursor}
    (htakes : cursor.Takes taken after) :
    ∃ hless, container workspace cursor = .ok ⟨body, after, hless⟩ := by
  match h with
  | .intro hopening hmembers hkind hclosing =>
      obtain ⟨_, hfirst, hrest⟩ := htakes.uncons
      obtain ⟨_, hexpect⟩ := hfirst.expect hopening
      obtain ⟨_, hread⟩ := members_accepts hmembers (continues_unknown_iff.2 hkind) hclosing hrest
      rw [container]
      simp only [inContext_eq_ok]
      rw [bind_of_ok hexpect]
      dsimp only
      rw [bind_of_ok hread]
      exact ⟨htakes.shorter, rfl⟩
termination_by structural h

/-- Derived members are read from any kind that they continue. The kind is
a variable here, because it changes from one member to the next. -/
theorem members_accepts {inner : List Token} {members : List (Member Expr)}
    (h : AreMembers workspace inner members) {before kind : ContainerKind}
    (hcontinues : Continues before members kind) {closing : Token}
    (hclosing : closing.kind = .rightBracket) {cursor after : Cursor}
    (htakes : cursor.Takes (inner ++ [closing]) after) :
    ∃ hless, Parser.members workspace before cursor = .ok ⟨⟨kind, members⟩, after, hless⟩ := by
  match h with
  | .nil =>
      obtain ⟨_, htake⟩ := htakes.take? hclosing
      obtain rfl := continues_nil_iff.1 hcontinues
      rw [Parser.members, htake]
      exact ⟨_, rfl⟩
  | .spread hmark hvalue hend hrest =>
      exact members_of_spread hmark hend (by simpa using htakes) (expr_accepts hvalue)
        (members_accepts hrest (continues_spread_iff.1 hcontinues) hclosing)
  | .property hkey harrow hvalue hend hrest =>
      rw [← keyedMember_of_assocKey hkey] at hcontinues ⊢
      obtain ⟨hbefore, hcontinues⟩ := continues_keyed_iff.1 hcontinues
      exact members_of_keyed (.inl hkey) harrow hend hbefore (by simpa using htakes)
        (expr_accepts hvalue) (members_accepts hrest hcontinues hclosing)
  | .element hkey harrow hvalue hend hrest =>
      rw [← keyedMember_of_numericKey hkey] at hcontinues ⊢
      obtain ⟨hbefore, hcontinues⟩ := continues_keyed_iff.1 hcontinues
      exact members_of_keyed (.inr hkey) harrow hend hbefore (by simpa using htakes)
        (expr_accepts hvalue) (members_accepts hrest hcontinues hclosing)
termination_by structural h

theorem argumentsUpToEnd_accepts {inner : List Token} {arguments : List (Argument Expr)}
    (h : AreArguments workspace inner arguments) {closing : Token}
    (hclosing : closing.kind = .rightParen) {cursor after : Cursor}
    (htakes : cursor.Takes (inner ++ [closing]) after) :
    ∃ hless, argumentsUpToEnd workspace cursor = .ok ⟨arguments, after, hless⟩ := by
  match h with
  | .nil =>
      obtain ⟨_, htake⟩ := htakes.take? hclosing
      rw [argumentsUpToEnd, htake]
      exact ⟨_, rfl⟩
  | @AreArguments.cons _ mark tokens ends rest isSpread value others hmark hvalue hends hrest =>
      have htakes : cursor.Takes (mark ++ (tokens ++ (ends ++ (rest ++ [closing])))) after := by
        simpa using htakes
      obtain ⟨afterMark, hmarkTakes, hfromValue⟩ := htakes.split
      obtain ⟨afterValue, hvalueTakes, hfromEnds⟩ := hfromValue.split
      have hended : endsExpr afterValue.kind = true := by
        rcases Cursor.kind_of_separated hends hfromEnds with hkind | hkind
        · rw [hkind]; rfl
        · rw [hkind, hclosing]; rfl
      obtain ⟨_, hread⟩ := expr_accepts hvalue hvalueTakes hended
      obtain ⟨first, more, rfl, hfirst⟩ := hvalue.start
      have hopen : cursor.take? .rightParen = none := by
        apply Cursor.take?_of_kind_ne
        rcases Cursor.kind_of_optional hmark htakes with hkind | hkind <;> rw [hkind]
        · simp
        · exact ne_of_starts hfirst rfl
      obtain ⟨_, hspread⟩ := Cursor.eat_of_optional hmark hmarkTakes fun _ => by
        rw [hvalueTakes.kind]
        exact ne_of_starts hfirst rfl
      obtain ⟨afterEnds, _, heat, hinner, hmore⟩ :=
        Cursor.eat_of_separated hends hfromEnds hclosing (by simp)
      obtain ⟨_, hothers⟩ := argumentsUpToEnd_accepts hrest hclosing hinner
      rw [argumentsUpToEnd, hopen]
      dsimp only
      rw [hspread]
      dsimp only
      rw [bind_of_ok hread]
      dsimp only
      rw [heat]
      dsimp only
      rw [if_neg hmore, bind_of_ok hothers]
      exact ⟨_, rfl⟩
termination_by structural h

end

end

end ConfigNotation
