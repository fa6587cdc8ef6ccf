import ConfigNotation.Proofs.Syntax.Lockstep
import ConfigNotation.Proofs.Syntax.Modules

/-!
Every list of tokens is read to a module or to an error. It need not come from a text: it
may be empty, have no end or several ones, and the text of a token is its own, so that a
span which covers nothing of a source just stands for an empty text. Only the tokens up to
the first end of the input count, and a module takes all tokens before it, each with one
statement.
-/

namespace ConfigNotation

open Grammar ConfigNotation.Parser

/-- The places that are reached from a cursor by taking token after token. -/
inductive Cursor.Reaches (cursor : Cursor) : Cursor → Prop where
  | here : Reaches cursor cursor
  | next {place : Cursor} {parsed : Parsed Token place} (h : Reaches cursor place)
      (hnext : place.next? = some parsed) : Reaches cursor parsed.after

theorem Cursor.Reaches.takes {cursor place : Cursor} (h : cursor.Reaches place) :
    ∃ taken, cursor.Takes taken place := by
  induction h with
  | here => exact ⟨[], .refl cursor⟩
  | next _ hnext ih =>
      obtain ⟨taken, htakes⟩ := ih
      exact ⟨_, htakes.trans (takes_of_next? hnext)⟩

theorem Cursor.Reaches.behind {cursor place : Cursor} {parsed : Parsed Token cursor}
    (hnext : cursor.next? = some parsed) (h : parsed.after.Reaches place) :
    cursor.Reaches place := by
  induction h with
  | here => exact .next .here hnext
  | next _ hmore ih => exact .next ih hmore

/-- A token up to the first end is the current one at some place. -/
theorem Cursor.exists_reaches_of_mem {tokens : List Token} {token : Token}
    (h : token ∈ upToEnd tokens) (previous : Span) :
    ∃ place, Reaches ⟨tokens, previous⟩ place ∧ place.current = token := by
  induction tokens generalizing previous with
  | nil => exact ⟨_, .here, (List.mem_singleton.1 h).symm⟩
  | cons first rest ih =>
      by_cases hend : first.kind = .endOfInput
      · have hall : upToEnd (first :: rest) = [first] := if_pos hend
        rw [hall, List.mem_singleton] at h
        exact ⟨_, .here, h.symm⟩
      · rw [upToEnd_cons hend, List.mem_cons] at h
        rcases h with rfl | h
        · exact ⟨_, .here, rfl⟩
        · obtain ⟨place, hreaches, hplace⟩ := ih h first.span
          have hnext : Cursor.next? ⟨first :: rest, previous⟩ =
              some ⟨first, ⟨rest, first.span⟩, Nat.lt_succ_self _⟩ := if_neg hend
          exact ⟨place, .behind hnext hreaches, hplace⟩

section

variable {tokens taken : List Token} {place : Cursor}

/-- No place is behind the first end of the input. -/
theorem Cursor.Takes.isPrefix_beforeEnd (h : (Cursor.start tokens).Takes taken place) :
    taken <+: beforeEnd tokens := by
  have htokens : tokens = taken ++ place.tokens := h.tokens
  refine ⟨beforeEnd place.tokens, ?_⟩
  rw [htokens, beforeEnd, beforeEnd, List.takeWhile_append_of_pos]
  exact fun token htoken => decide_eq_true (h.inside token htoken)

/-- It is the only place where no token is taken any more. -/
theorem Cursor.Takes.next?_eq_none_iff (h : (Cursor.start tokens).Takes taken place) :
    place.next? = none ↔ taken = beforeEnd tokens := by
  constructor
  · intro hnone
    refine h.eq_beforeEnd (Decidable.byContradiction fun hinside => ?_)
    obtain ⟨_, _, hnext⟩ := next?_of_inside hinside
    cases hnone.symm.trans hnext
  · rintro rfl
    obtain ⟨finish, hfinish, hend⟩ := Cursor.takes_beforeEnd tokens
    rw [h.unique hfinish]
    exact next?_of_end hend

end

section

variable (workspace : Workspace)

/-- A statement in front of the export is read from one place to another: what
it adds to the module that the rest forms. -/
inductive ReadsStatement (cursor after : Cursor) : (Module → Module) → Prop where
  | imported {first : Import} {hless : after.tokens.length < cursor.tokens.length}
      (h : importStatement workspace cursor = .ok ⟨first, after, hless⟩) :
      ReadsStatement cursor after fun rest => { rest with imports := first :: rest.imports }
  | used {first : Use} {hless : after.tokens.length < cursor.tokens.length}
      (h : useStatement workspace cursor = .ok ⟨first, after, hless⟩) :
      ReadsStatement cursor after fun rest => { rest with uses := first :: rest.uses }
  | declared {first : ClassDecl} {hless : after.tokens.length < cursor.tokens.length}
      (h : classDecl workspace cursor = .ok ⟨first, after, hless⟩) :
      ReadsStatement cursor after fun rest => { rest with classes := first :: rest.classes }
  | loose {value : Parsed Expr cursor} {semicolon : Parsed Token value.after}
      (hvalue : expr workspace cursor = .ok value)
      (hend : value.after.expect .semicolon = .ok semicolon) (hafter : semicolon.after = after) :
      ReadsStatement cursor after id

/-- Statement after statement is read up to the end of the input. Each takes the
tokens from where it starts to where the next one does, and at least one of
them. -/
inductive Consumes : Cursor → List (List Token) → Module → Prop where
  | exported {cursor after : Cursor} {group : List Token} {body : Expr}
      (h : exportStatement workspace cursor = .ok body) (htakes : cursor.Takes group after)
      (hsome : group ≠ []) (hend : after.kind = .endOfInput) :
      Consumes cursor [group] ⟨[], [], [], body⟩
  | statement {cursor after : Cursor} {group : List Token} {groups : List (List Token)}
      {rest : Module} {adds : Module → Module} (h : ReadsStatement workspace cursor after adds)
      (htakes : cursor.Takes group after) (hsome : group ≠ [])
      (hrest : Consumes after groups rest) :
      Consumes cursor (group :: groups) (adds rest)

end

variable {workspace : Workspace}

theorem Parsed.Obeys.takes_some {α : Type} {cursor : Cursor} {parsed : Parsed α cursor}
    {rule : List Token → α → Prop} (h : parsed.Obeys rule) :
    ∃ group, cursor.Takes group parsed.after ∧ group ≠ [] := by
  obtain ⟨group, htakes, _⟩ := h
  refine ⟨group, htakes, ?_⟩
  rintro rfl
  have hless := parsed.shorter
  rw [htakes.length_eq] at hless
  simp at hless

theorem ReadsStatement.takes {cursor after : Cursor} {adds : Module → Module}
    (h : ReadsStatement workspace cursor after adds) :
    ∃ group, cursor.Takes group after ∧ group ≠ [] := by
  cases h with
  | imported h => exact (importStatement_obeys h).takes_some
  | used h => exact (useStatement_obeys h).takes_some
  | declared h => exact (classDecl_obeys h).takes_some
  | loose hvalue hend hafter =>
      obtain ⟨taken, htaken, _⟩ := expr_obeys hvalue
      obtain ⟨hendTakes, _⟩ := Cursor.takes_of_expect hend
      exact ⟨_, hafter ▸ htaken.trans hendTakes, by simp⟩

/-- What is read as a module is read statement by statement. -/
theorem consumes_of_statements {cursor : Cursor} {module : Module}
    (h : statements workspace cursor = .ok module) :
    ∃ groups, Consumes workspace cursor groups module := by
  -- a statement that is read, and what follows it
  have hcons {after : Cursor} {rest : Module} {adds : Module → Module}
      (hread : ReadsStatement workspace cursor after adds)
      (hrest : ∃ groups, Consumes workspace after groups rest) :
      ∃ groups, Consumes workspace cursor groups (adds rest) := by
    obtain ⟨group, htakes, hsome⟩ := hread.takes
    obtain ⟨groups, hgroups⟩ := hrest
    exact ⟨group :: groups, .statement hread htakes hsome hgroups⟩
  rw [statements] at h
  split at h
  · obtain ⟨⟨first, after, hless⟩, hfirst, h⟩ := bind_eq_ok.1 h
    obtain ⟨rest, hrest, h⟩ := bind_eq_ok.1 h
    cases h
    exact hcons (.imported hfirst) (consumes_of_statements hrest)
  · obtain ⟨⟨first, after, hless⟩, hfirst, h⟩ := bind_eq_ok.1 h
    obtain ⟨rest, hrest, h⟩ := bind_eq_ok.1 h
    cases h
    exact hcons (.used hfirst) (consumes_of_statements hrest)
  · obtain ⟨⟨first, after, hless⟩, hfirst, h⟩ := bind_eq_ok.1 h
    obtain ⟨rest, hrest, h⟩ := bind_eq_ok.1 h
    cases h
    exact hcons (.declared hfirst) (consumes_of_statements hrest)
  · next hkind =>
    obtain ⟨body, hbody, h⟩ := bind_eq_ok.1 h
    cases h
    obtain ⟨group, after, htakes, hend, _⟩ := exportStatement_obeys hbody
    have hsome : group ≠ [] := by
      rintro rfl
      rw [htakes.unique (.refl cursor), hkind] at hend
      cases hend
    exact ⟨[group], .exported hbody htakes hsome hend⟩
  · cases h
  · split at h
    · obtain ⟨⟨value, afterValue, hvalueLess⟩, hvalue, h⟩ := bind_eq_ok.1 h
      obtain ⟨⟨semicolon, after, hless⟩, hend, h⟩ := bind_eq_ok.1 h
      have hshorter : after.tokens.length < cursor.tokens.length :=
        Nat.lt_trans hless hvalueLess
      exact hcons (.loose hvalue hend rfl) (consumes_of_statements h)
    · cases h
termination_by cursor.tokens.length

/-- The statements take all tokens one after the other. -/
theorem Consumes.takes {cursor : Cursor} {groups : List (List Token)} {module : Module}
    (h : Consumes workspace cursor groups module) :
    ∃ after, cursor.Takes groups.flatten after ∧ after.kind = .endOfInput := by
  induction h with
  | @exported _ after group _ _ htakes _ hend =>
      exact ⟨after, by rwa [List.flatten_singleton], hend⟩
  | statement _ htakes _ _ ih =>
      obtain ⟨after, hrest, hend⟩ := ih
      exact ⟨after, htakes.trans hrest, hend⟩

/-- Every list of tokens has an outcome. No place is reached behind the first end
of the input, and nothing there makes a difference. A module takes every token in
front of the end with one of its statements, and an error is about the token at a
place that was reached. -/
theorem Module.ofTokens_stops_at_end (workspace : Workspace) (tokens : List Token) :
    (∀ place, (Cursor.start tokens).Reaches place →
      ∃ taken, (Cursor.start tokens).Takes taken place ∧ taken <+: beforeEnd tokens ∧
        (place.next? = none ↔ taken = beforeEnd tokens)) ∧
    (∀ others, upToEnd others = upToEnd tokens →
      Module.ofTokens workspace others = Module.ofTokens workspace tokens) ∧
    ((∃ module groups, Module.ofTokens workspace tokens = .ok module ∧
        Consumes workspace (.start tokens) groups module ∧ groups.flatten = beforeEnd tokens) ∨
      ∃ error place, Module.ofTokens workspace tokens = .error error ∧
        (Cursor.start tokens).Reaches place ∧ error.span = place.current.span ∧
        error.position = place.current.position) := by
  refine ⟨?_, fun others => Module.ofTokens_congr, ?_⟩
  · intro place hreaches
    obtain ⟨taken, htakes⟩ := hreaches.takes
    exact ⟨taken, htakes, htakes.isPrefix_beforeEnd, htakes.next?_eq_none_iff⟩
  · cases hread : Module.ofTokens workspace tokens with
    | ok module =>
        obtain ⟨groups, hgroups⟩ := consumes_of_statements hread
        obtain ⟨after, htakes, hend⟩ := hgroups.takes
        exact .inl ⟨module, groups, rfl, hgroups, htakes.eq_beforeEnd hend⟩
    | error error =>
        obtain ⟨token, htoken, hspan, hposition⟩ := Module.ofTokens_error hread
        obtain ⟨place, hreaches, rfl⟩ := Cursor.exists_reaches_of_mem htoken .empty
        exact .inr ⟨error, place, rfl, hreaches, hspan, hposition⟩

end ConfigNotation
