import ConfigNotation.Proofs.Syntax.Statements

/-!
A list of tokens is read as a module exactly if the grammar derives the module from the
tokens before the first end of the input. What the grammar leaves open in front of a mark
is settled by the reader in one way only, so there is at most one such module.
-/

namespace ConfigNotation

open Grammar ConfigNotation.Parser

variable {workspace : Workspace}

theorem exportStatement_obeys {cursor : Cursor} {body : Expr}
    (h : exportStatement workspace cursor = .ok body) :
    ∃ taken after, cursor.Takes taken after ∧ after.kind = .endOfInput ∧
      IsModule .required workspace taken ⟨[], [], [], body⟩ := by
  rw [exportStatement] at h
  obtain ⟨statement, hstatement, h⟩ := bind_eq_ok.1 h
  rw [inContext_eq_ok] at hstatement
  obtain ⟨mark, hmark, hstatement⟩ := bind_eq_ok.1 hstatement
  obtain ⟨value, hvalue, hstatement⟩ := bind_eq_ok.1 hstatement
  obtain ⟨finish, hfinish, hstatement⟩ := bind_eq_ok.1 hstatement
  obtain ⟨hmarkTakes, hmark⟩ := Cursor.takes_of_expect hmark
  obtain ⟨tokens, htokens, hvalue⟩ := Parsed.obeys_of_thenRead hvalue expr_obeys
  obtain ⟨_, hfinishTakes, rfl, hend⟩ := Parsed.obeys_of_thenRead hfinish Cursor.expectAs_obeys
  cases hstatement
  dsimp only at h
  split at h
  · next hafter =>
    cases h
    exact ⟨_, _, hmarkTakes.trans (htokens.trans hfinishTakes), hafter,
      .exported hmark hvalue hend⟩
  · cases h

theorem exportStatement_accepts {mark semicolon : Token} {tokens : List Token} {body : Expr}
    (hmark : mark.kind = .exportWord) (hbody : IsExpr workspace tokens body)
    (hend : semicolon.kind = .semicolon) {cursor after : Cursor}
    (htakes : cursor.Takes (mark :: (tokens ++ [semicolon])) after)
    (hafter : after.kind = .endOfInput) :
    exportStatement workspace cursor = .ok body := by
  obtain ⟨_, hmarkTakes, hfromBody⟩ := htakes.uncons
  obtain ⟨_, hbodyTakes, hendTakes⟩ := hfromBody.split
  obtain ⟨_, hmarkRead⟩ := hmarkTakes.expect hmark
  obtain ⟨_, hbodyRead⟩ := expr_accepts hbody hbodyTakes (by rw [hendTakes.kind, hend]; rfl)
  obtain ⟨_, hendRead⟩ := hendTakes.expect hend
  rw [exportStatement]
  refine bind_eq_ok.2 ⟨⟨body, after, htakes.shorter⟩, inContext_eq_ok.2 ?_, if_pos hafter⟩
  rw [bind_of_ok hmarkRead, bind_of_ok (Parsed.thenRead_of_ok hbodyRead),
    bind_of_ok (Parsed.thenRead_of_ok hendRead)]
  rfl

theorem statements_obeys {cursor : Cursor} {module : Module}
    (h : statements workspace cursor = .ok module) :
    ∃ taken after, cursor.Takes taken after ∧ after.kind = .endOfInput ∧
      IsModule .required workspace taken module := by
  rw [statements] at h
  split at h
  · obtain ⟨⟨first, after, hless⟩, hfirst, h⟩ := bind_eq_ok.1 h
    obtain ⟨rest, hrest, h⟩ := bind_eq_ok.1 h
    obtain ⟨taken, htaken, hrule⟩ := importStatement_obeys hfirst
    obtain ⟨others, finish, hothers, hfinish, hmodule⟩ := statements_obeys hrest
    cases h
    exact ⟨_, finish, htaken.trans hothers, hfinish, .imported hrule hmodule⟩
  · obtain ⟨⟨first, after, hless⟩, hfirst, h⟩ := bind_eq_ok.1 h
    obtain ⟨rest, hrest, h⟩ := bind_eq_ok.1 h
    obtain ⟨taken, htaken, hrule⟩ := useStatement_obeys hfirst
    obtain ⟨others, finish, hothers, hfinish, hmodule⟩ := statements_obeys hrest
    cases h
    exact ⟨_, finish, htaken.trans hothers, hfinish, .used hrule hmodule⟩
  · obtain ⟨⟨first, after, hless⟩, hfirst, h⟩ := bind_eq_ok.1 h
    obtain ⟨rest, hrest, h⟩ := bind_eq_ok.1 h
    obtain ⟨taken, htaken, hrule⟩ := classDecl_obeys hfirst
    obtain ⟨others, finish, hothers, hfinish, hmodule⟩ := statements_obeys hrest
    cases h
    exact ⟨_, finish, htaken.trans hothers, hfinish, .declared hrule hmodule⟩
  · obtain ⟨body, hbody, h⟩ := bind_eq_ok.1 h
    cases h
    exact exportStatement_obeys hbody
  · cases h
  · split at h
    · obtain ⟨⟨value, afterValue, hvalueLess⟩, hvalue, h⟩ := bind_eq_ok.1 h
      obtain ⟨⟨semicolon, after, hless⟩, hend, h⟩ := bind_eq_ok.1 h
      have hshorter : after.tokens.length < cursor.tokens.length :=
        Nat.lt_trans hless hvalueLess
      obtain ⟨taken, htaken, hrule⟩ := expr_obeys hvalue
      obtain ⟨hendTakes, hend⟩ := Cursor.takes_of_expect hend
      obtain ⟨others, finish, hothers, hfinish, hmodule⟩ := statements_obeys h
      exact ⟨_, finish, htaken.trans (hendTakes.trans hothers), hfinish,
        .loose hrule hend hmodule⟩
    · cases h
termination_by cursor.tokens.length

theorem Grammar.IsImport.start {taken : List Token} {found : Import}
    (h : IsImport .required workspace taken found) :
    ∃ first rest, taken = first :: rest ∧ first.kind = .importWord := by
  cases h with
  | binding hmark | pattern hmark => exact ⟨_, _, rfl, hmark⟩

theorem Grammar.IsUse.start {taken : List Token} {found : Use}
    (h : IsUse .required workspace taken found) :
    ∃ first rest, taken = first :: rest ∧ first.kind = .useWord := by
  cases h with
  | binding hmark | pattern hmark => exact ⟨_, _, rfl, hmark⟩

theorem Grammar.IsClass.start {taken : List Token} {decl : ClassDecl}
    (h : IsClass workspace taken decl) :
    ∃ first rest, taken = first :: rest ∧ first.kind = .classWord := by
  cases h with
  | intro hmark => exact ⟨_, _, rfl, hmark⟩

theorem statements_accepts {taken : List Token} {module : Module}
    (h : IsModule .required workspace taken module) {cursor after : Cursor}
    (htakes : cursor.Takes taken after) (hafter : after.kind = .endOfInput) :
    statements workspace cursor = .ok module := by
  induction h generalizing cursor with
  | exported hmark hbody hend =>
      rw [statements, htakes.kind.trans hmark]
      dsimp only
      rw [bind_of_ok (exportStatement_accepts hmark hbody hend htakes hafter)]
      rfl
  | imported hfirst _ ih =>
      obtain ⟨_, hfirstTakes, hrestTakes⟩ := htakes.split
      obtain ⟨_, hread⟩ := importStatement_accepts hfirst hfirstTakes
      obtain ⟨mark, _, rfl, hmark⟩ := hfirst.start
      rw [statements, htakes.kind.trans hmark]
      dsimp only
      rw [bind_of_ok hread]
      dsimp only
      rw [bind_of_ok (ih hrestTakes)]
      rfl
  | used hfirst _ ih =>
      obtain ⟨_, hfirstTakes, hrestTakes⟩ := htakes.split
      obtain ⟨_, hread⟩ := useStatement_accepts hfirst hfirstTakes
      obtain ⟨mark, _, rfl, hmark⟩ := hfirst.start
      rw [statements, htakes.kind.trans hmark]
      dsimp only
      rw [bind_of_ok hread]
      dsimp only
      rw [bind_of_ok (ih hrestTakes)]
      rfl
  | declared hfirst _ ih =>
      obtain ⟨_, hfirstTakes, hrestTakes⟩ := htakes.split
      obtain ⟨_, hread⟩ := classDecl_accepts hfirst hfirstTakes
      obtain ⟨mark, _, rfl, hmark⟩ := hfirst.start
      rw [statements, htakes.kind.trans hmark]
      dsimp only
      rw [bind_of_ok hread]
      dsimp only
      rw [bind_of_ok (ih hrestTakes)]
      rfl
  | loose hexpr hend _ ih =>
      obtain ⟨_, hexprTakes, hfromEnd⟩ := htakes.split
      obtain ⟨_, hendTakes, hrestTakes⟩ := hfromEnd.uncons
      obtain ⟨_, hread⟩ := expr_accepts hexpr hexprTakes (by rw [hendTakes.kind, hend]; rfl)
      obtain ⟨_, hendRead⟩ := hendTakes.expect hend
      obtain ⟨first, _, rfl, hfirst⟩ := hexpr.start
      rw [← htakes.kind] at hfirst
      rw [statements]
      split
      case h_6 =>
        rw [if_pos hfirst, bind_of_ok hread]
        dsimp only
        rw [bind_of_ok hendRead]
        exact ih hrestTakes
      all_goals
        rename_i hkind
        rw [hkind] at hfirst
        cases hfirst

/-- A reader that comes to the end has taken the tokens before the first end. -/
theorem Cursor.Takes.eq_beforeEnd {tokens taken : List Token} {after : Cursor}
    (h : (Cursor.start tokens).Takes taken after) (hafter : after.kind = .endOfInput) :
    taken = beforeEnd tokens := by
  have htokens : tokens = taken ++ after.tokens := h.tokens
  have hrest : after.tokens.takeWhile (·.kind ≠ .endOfInput) = [] := by
    obtain ⟨rest, _⟩ := after
    cases rest with
    | nil => rfl
    | cons token rest =>
        have hkind : token.kind = .endOfInput := hafter
        exact List.takeWhile_cons_of_neg (by simp [hkind])
  rw [beforeEnd, htokens, List.takeWhile_append_of_pos, hrest, List.append_nil]
  intro token htoken
  simpa using h.inside token htoken

theorem Cursor.takes_beforeEnd (tokens : List Token) :
    ∃ after, (Cursor.start tokens).Takes (beforeEnd tokens) after ∧ after.kind = .endOfInput := by
  let inside (token : Token) : Bool := token.kind ≠ .endOfInput
  refine ⟨⟨tokens.dropWhile inside, _⟩, ⟨List.takeWhile_append_dropWhile.symm, ?_, rfl⟩, ?_⟩
  · intro token htoken
    exact of_decide_eq_true (List.all_eq_true.1 List.all_takeWhile token htoken)
  · have hfirst := List.head?_dropWhile_not inside tokens
    generalize tokens.dropWhile inside = rest at hfirst
    cases rest with
    | nil => rfl
    | cons token rest => exact Decidable.not_not.1 (of_decide_eq_false hfirst)

/-- A list of tokens is accepted exactly if its tokens before the first end of
the input form a module, and the module that they form is the one that is
built. -/
theorem Module.ofTokens_eq_ok_iff {tokens : List Token} {module : Module} :
    Module.ofTokens workspace tokens = .ok module ↔
      IsModule .required workspace (beforeEnd tokens) module := by
  constructor
  · intro h
    obtain ⟨taken, after, htakes, hafter, hmodule⟩ := statements_obeys h
    rw [← htakes.eq_beforeEnd hafter]
    exact hmodule
  · intro h
    obtain ⟨after, htakes, hafter⟩ := Cursor.takes_beforeEnd tokens
    exact statements_accepts h htakes hafter

end ConfigNotation
