import ConfigNotation.Proofs.Syntax.Takes

/-!
Patterns are read as the grammar derives them that asks for a semicolon behind every
alias of a key. A group inside another one takes the semicolon that follows it, if there
is one, so that this is never an entry of its own.
-/

namespace ConfigNotation

open Grammar ConfigNotation.Parser

/-- A group inside another one, and the semicolon that belongs to it whatever
follows. -/
theorem nestedGroup_obeys_of {segment : String} {cursor : Cursor}
    {parsed : Parsed (List Leaf) cursor} (h : nestedGroup segment cursor = .ok parsed)
    (hgroup : ∀ {read : Parsed (List Leaf) cursor}, group cursor = .ok read →
      read.Obeys (IsGroup .required)) :
    ∃ tokens ends inner, cursor.Takes (tokens ++ ends) parsed.after ∧
      IsGroup .required tokens inner ∧ parsed.value = inner.map (.under segment) ∧
      ∀ {rest last : List Token} {after : Cursor},
        parsed.after.Takes (rest ++ last) after → GroupEnd ends rest := by
  rw [nestedGroup] at h
  obtain ⟨⟨inner, afterGroup, hless⟩, hread, h⟩ := bind_eq_ok.1 h
  obtain ⟨tokens, htokens, hrule⟩ := hgroup hread
  obtain ⟨ends, hends, hendsTakes, hnone⟩ := afterGroup.eat_spec .semicolon (by simp)
  cases h
  refine ⟨tokens, ends, inner, htokens.trans hendsTakes, hrule, rfl, ?_⟩
  intro rest last after hrest
  dsimp only at hrest
  generalize (afterGroup.eat .semicolon).value = isEnded at hends hnone
  cases hends with
  | present hkind => exact .mark hkind rest
  | missing =>
      have hall : afterGroup.Takes (rest ++ last) after := hendsTakes.trans hrest
      exact .missing (hall.start_ne (hnone rfl))

mutual

theorem group_obeys {cursor : Cursor} {parsed : Parsed (List Leaf) cursor}
    (h : group cursor = .ok parsed) : parsed.Obeys (IsGroup .required) := by
  rw [group] at h
  obtain ⟨⟨opening, afterOpening, hopeningLess⟩, hexpect, h⟩ := bind_eq_ok.1 h
  obtain ⟨⟨leaves, after, hless⟩, hread, h⟩ := bind_eq_ok.1 h
  obtain ⟨hopeningTakes, hopening⟩ := Cursor.takes_of_expect hexpect
  obtain ⟨_, hrest, @⟨inner, closing, _, _, hclosing, hentries⟩⟩ := entries_obeys hread
  cases h
  exact ⟨_, hopeningTakes.trans hrest, .intro hopening hentries hclosing⟩
termination_by 3 * cursor.tokens.length

/-- What is read behind a key and its arrow forms an entry with them, whatever
entries follow. -/
theorem keyedEntry_obeys {key arrow : Token} {cursor : Cursor}
    {parsed : Parsed (List Leaf) cursor} (h : keyedEntry key.text cursor = .ok parsed)
    (hkey : key.kind = .ident) (harrow : arrow.kind = .arrow) :
    ∃ taken, cursor.Takes taken parsed.after ∧
      ∀ {place : Nat} {rest last : List Token} {leaves : List Leaf} {after : Cursor},
        parsed.after.Takes (rest ++ last) after → AreEntries .required place rest leaves →
        AreEntries .required place (key :: arrow :: (taken ++ rest)) (parsed.value ++ leaves) := by
  rw [keyedEntry] at h
  split at h
  · obtain ⟨⟨name, afterName, hnameLess⟩, hname, h⟩ := bind_eq_ok.1 h
    obtain ⟨⟨semicolon, after, hless⟩, hend, h⟩ := bind_eq_ok.1 h
    obtain ⟨hnameTakes, hname⟩ := Cursor.takes_of_expectAs hname
    obtain ⟨hendTakes, hend⟩ := Cursor.takes_of_expect hend
    cases h
    refine ⟨_, hnameTakes.trans hendTakes, ?_⟩
    intro place rest last leaves after _ hrest
    exact .keyedName hkey harrow hname (.mark hend rest) nofun hrest
  · obtain ⟨tokens, ends, inner, htakes, hgroup, hvalue, hends⟩ :=
      nestedGroup_obeys_of h group_obeys
    refine ⟨_, htakes, ?_⟩
    intro place rest last leaves after hrestTakes hrest
    rw [hvalue, List.append_assoc]
    exact .keyedGroup hkey harrow hgroup (hends hrestTakes) hrest
  · cases h
termination_by 3 * cursor.tokens.length + 1

/-- What the reader of entries accepts is derived, with every mark behind an
alias in place. The place of the first entry is handed through. -/
theorem entries_obeys {place : Nat} {cursor : Cursor} {parsed : Parsed (List Leaf) cursor}
    (h : entries place cursor = .ok parsed) :
    parsed.Obeys (UpTo .rightBracket (AreEntries .required place)) := by
  rw [entries] at h
  cases hend : cursor.take? .rightBracket with
  | some closing =>
      obtain ⟨htakes, hclosing⟩ := Cursor.takes_of_take? hend
      rw [hend] at h
      cases h
      exact ⟨_, htakes, .nil hclosing (.nil place)⟩
  | none =>
      have hopen := Cursor.kind_ne_of_take? hend (by simp)
      rw [hend] at h
      cases hnext : cursor.next? with
      | none =>
          rw [hnext] at h
          cases h
      | some first =>
          obtain ⟨token, after, hafter⟩ := first
          have hfirst := Cursor.takes_of_next? hnext
          rw [hnext] at h
          dsimp only at h
          split at h
          · next hkind =>
            split at h
            · next arrow afterArrow harrowLess harrow =>
              obtain ⟨⟨leaves, afterEntry, hentryLess⟩, hentry, h⟩ := bind_eq_ok.1 h
              obtain ⟨rest, hread, h⟩ := bind_eq_ok.1 h
              have hless : afterEntry.tokens.length < cursor.tokens.length :=
                Nat.lt_trans hentryLess (Nat.lt_trans harrowLess hafter)
              obtain ⟨harrowTakes, harrowKind⟩ := Cursor.takes_of_take? harrow
              obtain ⟨taken, htaken, hrule⟩ := keyedEntry_obeys hentry hkind harrowKind
              cases h
              exact (entries_obeys hread).behind (hfirst.trans (harrowTakes.trans htaken)) hopen
                hrule
            · next harrow =>
              split at h
              · cases h
              · next hended =>
                obtain ⟨rest, hread, h⟩ := bind_eq_ok.1 h
                have hendLess := (after.eat .semicolon).noLonger
                cases h
                exact (entries_obeys hread).behindItem hfirst hopen (by simp) hended
                  fun hends _ hrest => (AreEntries.name hkind hends hrest :)
          · next hkind =>
            obtain ⟨⟨leaves, afterGroup, hgroupLess⟩, hnested, h⟩ := bind_eq_ok.1 h
            obtain ⟨rest, hread, h⟩ := bind_eq_ok.1 h
            obtain ⟨tokens, ends, nested, htakes, hgroup, hvalue, hends⟩ :=
              nestedGroup_obeys_of hnested group_obeys
            cases h
            dsimp only at hvalue
            subst hvalue
            refine (entries_obeys hread).behind htakes hopen fun hothers hrest => ?_
            rw [List.append_assoc]
            exact .group hgroup (hends hothers) hrest
          · next hkind =>
            obtain ⟨rest, hread, h⟩ := bind_eq_ok.1 h
            cases h
            exact (entries_obeys hread).behind hfirst hopen fun _ hrest => .empty hkind hrest
          · next hkind =>
            split at h
            · cases h
            · next hended =>
              obtain ⟨rest, hread, h⟩ := bind_eq_ok.1 h
              have hendLess := (after.eat .semicolon).noLonger
              cases h
              exact (entries_obeys hread).behindItem hfirst hopen (by simp) hended
                fun hends _ hrest => (AreEntries.skip hkind hends hrest :)
          · cases h
termination_by 3 * cursor.tokens.length + 2

end

theorem pattern_obeys {cursor : Cursor} {parsed : Parsed Binding cursor}
    (h : pattern cursor = .ok parsed) :
    parsed.Obeys fun taken binding => ∃ leaves, binding = .pattern leaves ∧
      IsGroup .required taken leaves := by
  rw [pattern, inContext_eq_ok] at h
  obtain ⟨⟨leaves, after, hless⟩, hgroup, h⟩ := bind_eq_ok.1 h
  obtain ⟨taken, htaken, hrule⟩ := group_obeys hgroup
  cases h
  exact ⟨taken, htaken, leaves, rfl, hrule⟩

theorem binding_obeys {cursor : Cursor} {parsed : Parsed Binding cursor}
    (h : binding cursor = .ok parsed) :
    parsed.Obeys (IsBinding .required) := by
  rw [binding] at h
  split at h
  · obtain ⟨⟨name, after, hless⟩, hname, h⟩ := bind_eq_ok.1 h
    obtain ⟨htakes, hkind⟩ := Cursor.takes_of_expectAs hname
    cases h
    exact ⟨_, htakes, .name hkind⟩
  · obtain ⟨taken, htaken, leaves, hvalue, hrule⟩ := pattern_obeys h
    refine ⟨taken, htaken, ?_⟩
    rw [hvalue]
    exact .pattern hrule
  · cases h

theorem Grammar.Separated.kinds {kind : TokenKind} {ends rest : List Token}
    (h : Separated kind ends rest) : ∀ token ∈ ends, token.kind = kind := by
  cases h with
  | mark hmark _ => exact List.forall_mem_singleton.2 hmark
  | last => exact nofun

theorem Grammar.GroupEnd.kinds {ends rest : List Token} (h : GroupEnd ends rest) :
    ∀ token ∈ ends, token.kind = .semicolon := by
  cases h with
  | mark hmark _ => exact List.forall_mem_singleton.2 hmark
  | missing => exact nofun

theorem Grammar.IsGroup.start {aliasEnd : AliasEnd} {taken : List Token} {leaves : List Leaf}
    (h : IsGroup aliasEnd taken leaves) :
    ∃ first rest, taken = first :: rest ∧ first.kind = .leftBracket := by
  cases h with
  | intro hopening => exact ⟨_, _, rfl, hopening⟩

/-- A group inside another one is read with the marks that may follow it. -/
theorem nestedGroup_accepts {segment : String} {tokens ends rest : List Token}
    {inner : List Leaf} {closing : Token} {cursor after : Cursor} (hends : GroupEnd ends rest)
    (hclosing : closing.kind = .rightBracket)
    (htakes : cursor.Takes (tokens ++ (ends ++ (rest ++ [closing]))) after)
    (hread : ∀ {middle : Cursor}, cursor.Takes tokens middle →
      ∃ hless, group cursor = .ok ⟨inner, middle, hless⟩) :
    ∃ next hless, nestedGroup segment cursor = .ok ⟨inner.map (.under segment), next, hless⟩ ∧
      next.Takes (rest ++ [closing]) after := by
  obtain ⟨middle, htokens, hbehind⟩ := htakes.split
  obtain ⟨next, hendsTakes, hrestTakes⟩ := hbehind.split
  obtain ⟨hgroupLess, hread⟩ := hread htokens
  have heat : ∃ isPresent hle, middle.eat .semicolon = ⟨isPresent, next, hle⟩ := by
    cases hends with
    | mark hkind => exact ⟨true, Cursor.eat_of_optional (.present hkind) hendsTakes (by simp)⟩
    | missing hrest =>
        refine ⟨false, Cursor.eat_of_optional .missing hendsTakes fun _ => ?_⟩
        cases rest with
        | nil =>
            simp [hrestTakes.kind, hclosing]
        | cons first _ =>
            rw [hrestTakes.kind]
            exact hrest first rfl
  obtain ⟨_, hle, heat⟩ := heat
  refine ⟨next, Nat.lt_of_le_of_lt hle hgroupLess, ?_, hrestTakes⟩
  rw [nestedGroup, bind_of_ok hread]
  dsimp only
  rw [heat]
  rfl

section

variable {place : Nat} {token closing : Token} {ends rest : List Token} {others : List Leaf}
  {cursor after : Cursor}

/-- A name and the semicolon behind it, before entries that are read from the
next place. -/
theorem entries_of_name (hname : token.kind = .ident) (hends : Separated .semicolon ends rest)
    (hclosing : closing.kind = .rightBracket)
    (htakes : cursor.Takes (token :: (ends ++ (rest ++ [closing]))) after)
    (hrest : ∀ {next : Cursor}, next.Takes (rest ++ [closing]) after →
      ∃ hless, entries (place + 1) next = .ok ⟨others, after, hless⟩) :
    ∃ hless, entries place cursor =
      .ok ⟨⟨[toString place], token.text⟩ :: others, after, hless⟩ := by
  obtain ⟨afterName, hfirst, hbehind⟩ := htakes.uncons
  have hopen : cursor.take? .rightBracket = none :=
    Cursor.take?_of_kind_ne (by simp [htakes.kind, hname])
  have harrow : afterName.take? .arrow = none := by
    apply Cursor.take?_of_kind_ne
    rcases Cursor.kind_of_separated hends hbehind with hkind | hkind
    · simp [hkind]
    · simp [hkind, hclosing]
  obtain ⟨_, hnext⟩ := hfirst.next?
  obtain ⟨_, _, heat, hinner, hended⟩ :=
    Cursor.eat_of_separated hends hbehind hclosing (by simp)
  obtain ⟨_, hothers⟩ := hrest hinner
  rw [entries, hopen, hnext]
  dsimp only
  rw [hname]
  dsimp only
  rw [harrow, heat]
  dsimp only
  rw [if_neg hended, bind_of_ok hothers]
  exact ⟨htakes.shorter, rfl⟩

/-- A semicolon on its own takes a place. -/
theorem entries_of_empty (hend : token.kind = .semicolon)
    (htakes : cursor.Takes (token :: rest) after)
    (hrest : ∀ {next : Cursor}, next.Takes rest after →
      ∃ hless, entries (place + 1) next = .ok ⟨others, after, hless⟩) :
    ∃ hless, entries place cursor = .ok ⟨others, after, hless⟩ := by
  obtain ⟨_, hfirst, hbehind⟩ := htakes.uncons
  have hopen : cursor.take? .rightBracket = none :=
    Cursor.take?_of_kind_ne (by simp [htakes.kind, hend])
  obtain ⟨_, hnext⟩ := hfirst.next?
  obtain ⟨_, hothers⟩ := hrest hbehind
  rw [entries, hopen, hnext]
  dsimp only
  rw [hend]
  dsimp only
  rw [bind_of_ok hothers]
  exact ⟨htakes.shorter, rfl⟩

theorem entries_of_skip (hword : token.kind = .skipWord) (hends : Separated .semicolon ends rest)
    (hclosing : closing.kind = .rightBracket)
    (htakes : cursor.Takes (token :: (ends ++ (rest ++ [closing]))) after)
    (hrest : ∀ {next : Cursor}, next.Takes (rest ++ [closing]) after →
      ∃ hless, entries (place + 1) next = .ok ⟨others, after, hless⟩) :
    ∃ hless, entries place cursor = .ok ⟨others, after, hless⟩ := by
  obtain ⟨_, hfirst, hbehind⟩ := htakes.uncons
  have hopen : cursor.take? .rightBracket = none :=
    Cursor.take?_of_kind_ne (by simp [htakes.kind, hword])
  obtain ⟨_, hnext⟩ := hfirst.next?
  obtain ⟨_, _, heat, hinner, hended⟩ :=
    Cursor.eat_of_separated hends hbehind hclosing (by simp)
  obtain ⟨_, hothers⟩ := hrest hinner
  rw [entries, hopen, hnext]
  dsimp only
  rw [hword]
  dsimp only
  rw [heat]
  dsimp only
  rw [if_neg hended, bind_of_ok hothers]
  exact ⟨htakes.shorter, rfl⟩

/-- A group inside the one that is read, its leaves under the place that it
takes. -/
theorem entries_of_group {tokens : List Token} {inner : List Leaf}
    (hstart : ∃ first more, tokens = first :: more ∧ first.kind = .leftBracket)
    (hends : GroupEnd ends rest) (hclosing : closing.kind = .rightBracket)
    (htakes : cursor.Takes (tokens ++ (ends ++ (rest ++ [closing]))) after)
    (hgroup : ∀ {middle : Cursor}, cursor.Takes tokens middle →
      ∃ hless, group cursor = .ok ⟨inner, middle, hless⟩)
    (hrest : ∀ {next : Cursor}, next.Takes (rest ++ [closing]) after →
      ∃ hless, entries (place + 1) next = .ok ⟨others, after, hless⟩) :
    ∃ hless, entries place cursor =
      .ok ⟨inner.map (.under (toString place)) ++ others, after, hless⟩ := by
  obtain ⟨_, _, hnested, hrestTakes⟩ := nestedGroup_accepts hends hclosing htakes hgroup
  obtain ⟨opening, _, rfl, hopening⟩ := hstart
  have hopen : cursor.take? .rightBracket = none :=
    Cursor.take?_of_kind_ne (by simp [htakes.kind, hopening])
  obtain ⟨_, hfirst, _⟩ := htakes.uncons
  obtain ⟨_, hnext⟩ := hfirst.next?
  obtain ⟨_, hothers⟩ := hrest hrestTakes
  rw [entries, hopen, hnext]
  dsimp only
  rw [hopening]
  dsimp only
  rw [bind_of_ok hnested]
  dsimp only
  rw [bind_of_ok hothers]
  exact ⟨htakes.shorter, rfl⟩

/-- A key names what is read behind its arrow, and takes no place. -/
theorem entries_of_keyed {key arrow : Token} {taken : List Token} {found : List Leaf}
    (hkey : key.kind = .ident) (harrow : arrow.kind = .arrow)
    (htakes : cursor.Takes (key :: arrow :: taken) after)
    (hentry : ∀ {behind : Cursor}, behind.Takes taken after →
      ∃ next hless, keyedEntry key.text behind = .ok ⟨found, next, hless⟩ ∧
        ∃ hless, entries place next = .ok ⟨others, after, hless⟩) :
    ∃ hless, entries place cursor = .ok ⟨found ++ others, after, hless⟩ := by
  obtain ⟨_, hfirst, hbehind⟩ := htakes.uncons
  obtain ⟨_, harrowTakes, hbehind⟩ := hbehind.uncons
  have hopen : cursor.take? .rightBracket = none :=
    Cursor.take?_of_kind_ne (by simp [htakes.kind, hkey])
  obtain ⟨_, hnext⟩ := hfirst.next?
  obtain ⟨_, htake⟩ := harrowTakes.take? harrow
  obtain ⟨_, _, hread, _, hothers⟩ := hentry hbehind
  rw [entries, hopen, hnext]
  dsimp only
  rw [hkey]
  dsimp only
  rw [htake]
  dsimp only
  rw [bind_of_ok hread]
  dsimp only
  rw [bind_of_ok hothers]
  exact ⟨htakes.shorter, rfl⟩

theorem keyedEntry_of_name {segment : String} {semicolon : Token} (hname : token.kind = .ident)
    (hend : semicolon.kind = .semicolon) (htakes : cursor.Takes [token, semicolon] after) :
    ∃ hless, keyedEntry segment cursor = .ok ⟨[⟨[segment], token.text⟩], after, hless⟩ := by
  obtain ⟨_, hnameTakes, hendTakes⟩ := htakes.uncons
  obtain ⟨_, hnameRead⟩ := hnameTakes.expectAs hname "an alias"
  obtain ⟨_, hendRead⟩ := hendTakes.expect hend
  refine ⟨htakes.shorter, ?_⟩
  rw [keyedEntry, htakes.kind.trans hname]
  dsimp only
  rw [bind_of_ok hnameRead]
  dsimp only
  rw [bind_of_ok hendRead]
  rfl

theorem keyedEntry_of_group {segment : String} {tokens : List Token}
    (hstart : ∃ first more, tokens = first :: more ∧ first.kind = .leftBracket)
    (htakes : cursor.Takes (tokens ++ rest) after) :
    keyedEntry segment cursor = nestedGroup segment cursor := by
  obtain ⟨opening, _, rfl, hopening⟩ := hstart
  rw [keyedEntry, htakes.kind.trans hopening]

end

mutual

theorem group_accepts {taken : List Token} {leaves : List Leaf} (h : IsGroup .required taken leaves)
    {cursor after : Cursor} (htakes : cursor.Takes taken after) :
    ∃ hless, group cursor = .ok ⟨leaves, after, hless⟩ := by
  match h with
  | .intro hopening hentries hclosing =>
      obtain ⟨_, hfirst, hrest⟩ := htakes.uncons
      obtain ⟨_, hexpect⟩ := hfirst.expect hopening
      obtain ⟨_, hread⟩ := entries_accepts hentries hclosing hrest
      rw [group, bind_of_ok hexpect]
      dsimp only
      rw [bind_of_ok hread]
      exact ⟨htakes.shorter, rfl⟩
termination_by structural h

/-- Derived entries are read as derived, up to their closing bracket. The
recursion goes into groups and on behind them, along the derivation. -/
theorem entries_accepts {place : Nat} {inner : List Token} {leaves : List Leaf}
    (h : AreEntries .required place inner leaves) {closing : Token}
    (hclosing : closing.kind = .rightBracket) {cursor after : Cursor}
    (htakes : cursor.Takes (inner ++ [closing]) after) :
    ∃ hless, entries place cursor = .ok ⟨leaves, after, hless⟩ := by
  match h with
  | .nil _ =>
      obtain ⟨hless, htake⟩ := htakes.take? hclosing
      rw [entries, htake]
      exact ⟨hless, rfl⟩
  | .name hname hends hrest =>
      exact entries_of_name hname hends hclosing (by simpa using htakes)
        (entries_accepts hrest hclosing)
  | .empty hend hrest => exact entries_of_empty hend htakes (entries_accepts hrest hclosing)
  | .skip hword hends hrest =>
      exact entries_of_skip hword hends hclosing (by simpa using htakes)
        (entries_accepts hrest hclosing)
  | .group hgroup hends hrest =>
      exact entries_of_group hgroup.start hends hclosing (by simpa using htakes)
        (group_accepts hgroup) (entries_accepts hrest hclosing)
  | @AreEntries.keyedName _ _ key _ name _ _ _ hkey harrow hname hends hwritten hrest =>
      cases hends with
      | last => exact absurd rfl (hwritten rfl)
      | mark hend _ =>
          refine @entries_of_keyed _ _ _ _ _ _ _ [⟨[key.text], name.text⟩] hkey harrow htakes ?_
          intro behind hbehind
          obtain ⟨_, hnameTakes, hbehind⟩ := hbehind.uncons
          obtain ⟨next, hendTakes, hrestTakes⟩ := hbehind.uncons
          obtain ⟨hless, hread⟩ := keyedEntry_of_name hname hend (hnameTakes.trans hendTakes)
          exact ⟨next, hless, hread, entries_accepts hrest hclosing hrestTakes⟩
  | @AreEntries.keyedGroup _ _ key arrow tokens ends rest _ _ hkey harrow hgroup hends hrest =>
      have htakes : cursor.Takes (key :: arrow :: (tokens ++ (ends ++ (rest ++ [closing]))))
          after := by
        simpa using htakes
      refine entries_of_keyed hkey harrow htakes ?_
      intro behind hbehind
      obtain ⟨next, hless, hnested, hrestTakes⟩ :=
        nestedGroup_accepts hends hclosing hbehind (group_accepts hgroup)
      refine ⟨next, hless, ?_, entries_accepts hrest hclosing hrestTakes⟩
      rwa [keyedEntry_of_group hgroup.start hbehind]
termination_by structural h

end

theorem pattern_accepts {taken : List Token} {leaves : List Leaf}
    (h : IsGroup .required taken leaves) {cursor after : Cursor}
    (htakes : cursor.Takes taken after) :
    ∃ hless, pattern cursor = .ok ⟨.pattern leaves, after, hless⟩ := by
  obtain ⟨hless, hread⟩ := group_accepts h htakes
  refine ⟨hless, inContext_eq_ok.2 ?_⟩
  rw [bind_of_ok hread]
  rfl

mutual

/-- No end of the input stands in a group. -/
theorem Grammar.IsGroup.inside {aliasEnd : AliasEnd} {taken : List Token} {leaves : List Leaf}
    (h : IsGroup aliasEnd taken leaves) :
    ∀ token ∈ taken, token.kind ≠ .endOfInput := by
  match h with
  | .intro hopening hentries hclosing =>
      rw [List.forall_mem_cons, List.forall_mem_append, List.forall_mem_singleton, hopening,
        hclosing]
      exact ⟨nofun, hentries.inside, nofun⟩
termination_by structural h

theorem Grammar.AreEntries.inside {aliasEnd : AliasEnd} {place : Nat} {taken : List Token}
    {leaves : List Leaf} (h : AreEntries aliasEnd place taken leaves) :
    ∀ token ∈ taken, token.kind ≠ .endOfInput := by
  have hsemicolons {ends : List Token} (hkinds : ∀ token ∈ ends, token.kind = .semicolon) :
      ∀ token ∈ ends, token.kind ≠ .endOfInput := by
    intro token htoken
    rw [hkinds token htoken]
    exact nofun
  match h with
  | .nil _ => exact nofun
  | .name hname hends hrest =>
      rw [List.forall_mem_cons, List.forall_mem_append, hname]
      exact ⟨nofun, hsemicolons hends.kinds, hrest.inside⟩
  | .empty hend hrest =>
      rw [List.forall_mem_cons, hend]
      exact ⟨nofun, hrest.inside⟩
  | .skip hword hends hrest =>
      rw [List.forall_mem_cons, List.forall_mem_append, hword]
      exact ⟨nofun, hsemicolons hends.kinds, hrest.inside⟩
  | .group hgroup hends hrest =>
      rw [List.forall_mem_append, List.forall_mem_append]
      exact ⟨hgroup.inside, hsemicolons hends.kinds, hrest.inside⟩
  | .keyedName hkey harrow hname hends _ hrest =>
      rw [List.forall_mem_cons, List.forall_mem_cons, List.forall_mem_cons, List.forall_mem_append,
        hkey, harrow, hname]
      exact ⟨nofun, nofun, nofun, hsemicolons hends.kinds, hrest.inside⟩
  | .keyedGroup hkey harrow hgroup hends hrest =>
      rw [List.forall_mem_cons, List.forall_mem_cons, List.forall_mem_append,
        List.forall_mem_append, hkey, harrow]
      exact ⟨nofun, nofun, hgroup.inside, hsemicolons hends.kinds, hrest.inside⟩
termination_by structural h

end

def Cursor.ReadsLeaves (cursor : Cursor) (leaves : List Leaf) (rest : List Token) : Prop :=
  ∃ parsed, pattern cursor = .ok parsed ∧ parsed.value = .pattern leaves ∧
    parsed.after.tokens = rest

/-- The leaves of a pattern are those that the grammar derives from its
tokens. -/
theorem readsLeaves_iff {cursor : Cursor} {leaves : List Leaf} {tokens rest : List Token}
    (hcursor : cursor.tokens = tokens ++ rest) :
    cursor.ReadsLeaves leaves rest ↔ IsGroup .required tokens leaves := by
  constructor
  · rintro ⟨parsed, hread, hvalue, hafter⟩
    obtain ⟨taken, htaken, found, hfound, hgroup⟩ := pattern_obeys hread
    have htokens := htaken.tokens
    rw [hcursor, hafter] at htokens
    cases hvalue.symm.trans hfound
    rw [List.append_cancel_right htokens]
    exact hgroup
  · intro hgroup
    have htakes : cursor.Takes tokens ⟨rest, (tokens.getLast?.map (·.span)).getD cursor.previous⟩ :=
      ⟨hcursor, hgroup.inside, rfl⟩
    obtain ⟨_, hread⟩ := pattern_accepts hgroup htakes
    exact ⟨_, hread, rfl, rfl⟩

/-- A derived binding is read as derived, whatever stands behind it. -/
theorem binding_accepts {taken : List Token} {bound : Binding} (h : IsBinding .required taken bound)
    {cursor after : Cursor} (htakes : cursor.Takes taken after) :
    ∃ hless, binding cursor = .ok ⟨bound, after, hless⟩ := by
  cases h with
  | name hkind =>
      obtain ⟨hless, hread⟩ := htakes.expectAs hkind "a binding name"
      rw [binding, htakes.kind.trans hkind]
      dsimp only
      rw [bind_of_ok hread]
      exact ⟨hless, rfl⟩
  | pattern hgroup =>
      obtain ⟨opening, _, rfl, hopening⟩ := hgroup.start
      rw [binding, htakes.kind.trans hopening]
      exact pattern_accepts hgroup htakes

end ConfigNotation
