import ConfigNotation.Proofs.Syntax.Types

/-!
Class declarations are read as the grammar derives them. That nothing follows a rest
parameter is found by the reader when it comes to what follows.
-/

namespace ConfigNotation

open Grammar ConfigNotation.Parser

theorem parametersUpToEnd_obeys {last : Option Parameter} {cursor : Cursor}
    {parsed : Parsed (List Parameter) cursor} (h : parametersUpToEnd last cursor = .ok parsed) :
    parsed.Obeys (UpTo .rightParen fun inner parameters =>
      AreParameters inner parameters ∧
        ∀ before ∈ last, before.isRest = true → parameters = []) := by
  rw [parametersUpToEnd] at h
  cases hend : cursor.take? .rightParen with
  | some closing =>
      obtain ⟨htakes, hclosing⟩ := Cursor.takes_of_take? hend
      rw [hend] at h
      cases h
      exact ⟨_, htakes, .nil hclosing ⟨.nil, fun _ _ _ => rfl⟩⟩
  | none =>
      have hopen := Cursor.kind_ne_of_take? hend (by simp)
      rw [hend] at h
      dsimp only at h
      split at h
      · cases h
      · next hlast =>
        obtain ⟨⟨name, afterName, hnameLess⟩, hname, h⟩ := bind_eq_ok.1 h
        split at h
        · cases h
        · next hended =>
          obtain ⟨others, hread, h⟩ := bind_eq_ok.1 h
          have hmarkLess := (cursor.eat .spread).noLonger
          have hless : (afterName.eat .comma).after.tokens.length < cursor.tokens.length :=
            Nat.lt_of_le_of_lt (afterName.eat .comma).noLonger
              (Nat.lt_of_lt_of_le hnameLess hmarkLess)
          obtain ⟨mark, hmark, hmarkTakes, _⟩ := cursor.eat_spec .spread (by simp)
          obtain ⟨hnameTakes, hname⟩ := Cursor.takes_of_expectAs hname
          cases h
          refine (parametersUpToEnd_obeys hread).behindItem (hmarkTakes.trans hnameTakes) hopen
            (by simp) hended ?_
          rintro ends inner hends - ⟨hrule, hrest⟩
          have hparameters := AreParameters.cons hmark hname hends (hrest _ rfl) hrule
          refine ⟨by simpa using hparameters, fun before hbefore hisRest => ?_⟩
          exact absurd hisRest (Option.filter_eq_none_iff.1 hlast before hbefore)
termination_by cursor.tokens.length

/-- Derived parameters are read as derived. The last one that was read is
carried along, since nothing may follow a rest parameter. -/
theorem parametersUpToEnd_accepts {last : Option Parameter} {inner : List Token}
    {parameters : List Parameter} (h : AreParameters inner parameters)
    (hlast : ∀ before ∈ last, before.isRest = true → parameters = []) {closing : Token}
    (hclosing : closing.kind = .rightParen) {cursor after : Cursor}
    (htakes : cursor.Takes (inner ++ [closing]) after) :
    ∃ hless, parametersUpToEnd last cursor = .ok ⟨parameters, after, hless⟩ := by
  induction h generalizing last cursor with
  | nil =>
      obtain ⟨hless, htake⟩ := htakes.take? hclosing
      rw [parametersUpToEnd, htake]
      exact ⟨hless, rfl⟩
  | @cons mark ends rest name isRest others hmark hname hends hrestLast hrest ih =>
      have htakes : cursor.Takes (mark ++ name :: (ends ++ (rest ++ [closing]))) after := by
        simpa using htakes
      obtain ⟨_, hmarkTakes, hfromName⟩ := htakes.split
      obtain ⟨_, hnameTakes, hfromEnds⟩ := hfromName.uncons
      have hopen : cursor.take? .rightParen = none := by
        apply Cursor.take?_of_kind_ne
        rcases Cursor.kind_of_optional hmark htakes with hkind | hkind <;> rw [hkind]
        · simp
        · simp [hname]
      have hfilter : last.filter (·.isRest) = none := by
        refine Option.filter_eq_none_iff.2 fun before hbefore hisRest => ?_
        cases hlast before hbefore hisRest
      obtain ⟨_, hspread⟩ := Cursor.eat_of_optional hmark hmarkTakes fun _ => by
        simp [hnameTakes.kind, hname]
      obtain ⟨_, hnameRead⟩ := hnameTakes.expectAs hname "a parameter name"
      obtain ⟨_, _, heat, hinner, hended⟩ :=
        Cursor.eat_of_separated hends hfromEnds hclosing (by simp)
      have hbehind : ∀ before ∈ some (⟨name.text, isRest⟩ : Parameter),
          before.isRest = true → others = [] := by
        simpa using hrestLast
      obtain ⟨_, hothers⟩ := ih hbehind hinner
      rw [parametersUpToEnd, hopen]
      dsimp only
      rw [hfilter, hspread]
      dsimp only
      rw [bind_of_ok hnameRead]
      dsimp only
      rw [heat]
      dsimp only
      rw [if_neg hended, bind_of_ok hothers]
      exact ⟨_, rfl⟩

theorem parameters_obeys {cursor : Cursor} {found : Found (List Parameter) cursor}
    (h : Parser.parameters cursor = .ok found) : found.Obeys HasParameters := by
  rw [Parser.parameters] at h
  split at h
  · cases h
    exact ⟨[], .refl cursor, .missing⟩
  · next opening htake =>
    obtain ⟨htakes, hopening⟩ := Cursor.takes_of_take? htake
    rw [inContext_eq_ok] at h
    obtain ⟨parsed, hread, h⟩ := bind_eq_ok.1 h
    obtain ⟨_, htaken, @⟨inner, closing, _, _, hclosing, hrule, _⟩⟩ :=
      Parsed.obeys_of_thenRead hread parametersUpToEnd_obeys
    cases h
    exact ⟨_, htakes.trans htaken, .present hopening hrule hclosing⟩

theorem parameters_accepts {taken : List Token} {parameters : List Parameter}
    (h : HasParameters taken parameters) {cursor after : Cursor}
    (htakes : cursor.Takes taken after) (hafter : after.kind ≠ .leftParen) :
    ∃ hle, Parser.parameters cursor = .ok ⟨parameters, after, hle⟩ := by
  cases h with
  | missing =>
      obtain rfl := htakes.unique (.refl cursor)
      rw [Parser.parameters, Cursor.take?_of_kind_ne hafter]
      exact ⟨Nat.le_refl _, rfl⟩
  | present hopening hrule hclosing =>
      obtain ⟨_, hfirst, hrest⟩ := htakes.uncons
      obtain ⟨_, htake⟩ := hfirst.take? hopening
      obtain ⟨_, hread⟩ := @parametersUpToEnd_accepts none _ _ hrule (by simp) _ hclosing _ _ hrest
      refine ⟨Nat.le_of_lt htakes.shorter, ?_⟩
      rw [Parser.parameters, htake]
      dsimp only
      rw [inContext_eq_ok, bind_of_ok (Parsed.thenRead_of_ok hread)]
      rfl

theorem baseClass_obeys {cursor : Cursor} {found : Found (Option String) cursor}
    (h : baseClass cursor = .ok found) : found.Obeys HasBase := by
  rw [baseClass] at h
  split at h
  · cases h
    exact ⟨[], .refl cursor, .missing⟩
  · next mark htake =>
    obtain ⟨htakes, hmark⟩ := Cursor.takes_of_take? htake
    obtain ⟨name, hread, h⟩ := bind_eq_ok.1 h
    obtain ⟨_, htaken, rfl, hname⟩ := Parsed.obeys_of_thenRead hread Cursor.expectAs_obeys
    cases h
    exact ⟨_, htakes.trans htaken, .present hmark hname⟩

theorem baseClass_accepts {taken : List Token} {base : Option String} (h : HasBase taken base)
    {cursor after : Cursor} (htakes : cursor.Takes taken after)
    (hafter : after.kind ≠ .extendsWord) :
    ∃ hle, baseClass cursor = .ok ⟨base, after, hle⟩ := by
  cases h with
  | missing =>
      obtain rfl := htakes.unique (.refl cursor)
      rw [baseClass, Cursor.take?_of_kind_ne hafter]
      exact ⟨Nat.le_refl _, rfl⟩
  | present hmark hname =>
      obtain ⟨_, hfirst, hrest⟩ := htakes.uncons
      obtain ⟨_, htake⟩ := hfirst.take? hmark
      obtain ⟨_, hread⟩ := hrest.expectAs hname "a base class name"
      rw [baseClass, htake]
      dsimp only
      rw [bind_of_ok (Parsed.thenRead_of_ok hread)]
      exact ⟨Nat.le_of_lt htakes.shorter, rfl⟩

/-- Behind the name of a class stands the word for its base, or whatever
follows where there is none. -/
theorem kind_of_hasBase {taken : List Token} {base : Option String} (h : HasBase taken base)
    {cursor after : Cursor} (htakes : cursor.Takes taken after) :
    cursor.kind = .extendsWord ∨ cursor.kind = after.kind := by
  cases h with
  | missing =>
      obtain rfl := htakes.unique (.refl cursor)
      exact .inr rfl
  | present hmark _ => exact .inl (htakes.kind.trans hmark)

theorem names_obeys (cursor : Cursor) :
    (names cursor).Obeys fun taken texts =>
      (∀ name ∈ taken, name.kind = .ident) ∧ texts = taken.map (·.text) := by
  rw [names]
  split
  · exact ⟨[], .refl cursor, by simp, rfl⟩
  · next name afterName hless htake =>
    obtain ⟨htakes, hname⟩ := Cursor.takes_of_take? htake
    obtain ⟨taken, htaken, hkinds, htexts⟩ := names_obeys afterName
    refine ⟨name :: taken, htakes.trans htaken, List.forall_mem_cons.2 ⟨hname, hkinds⟩, ?_⟩
    dsimp only
    rw [htexts]
    rfl
termination_by cursor.tokens.length

/-- A run of names is read to its end, where another kind of token has to
follow. -/
theorem names_accepts {taken : List Token} (h : ∀ name ∈ taken, name.kind = .ident)
    {cursor after : Cursor} (htakes : cursor.Takes taken after) (hafter : after.kind ≠ .ident) :
    ∃ hle, names cursor = ⟨taken.map (·.text), after, hle⟩ := by
  induction taken generalizing cursor with
  | nil =>
      obtain rfl := htakes.unique (.refl cursor)
      rw [names, Cursor.take?_of_kind_ne hafter]
      exact ⟨Nat.le_refl _, rfl⟩
  | cons name rest ih =>
      obtain ⟨hname, hrest⟩ := List.forall_mem_cons.1 h
      obtain ⟨_, hfirst, hbehind⟩ := htakes.uncons
      obtain ⟨_, htake⟩ := hfirst.take? hname
      obtain ⟨_, hothers⟩ := ih hrest hbehind
      rw [names, htake]
      dsimp only
      rw [hothers]
      exact ⟨Nat.le_of_lt htakes.shorter, rfl⟩

theorem mixins_obeys {cursor : Cursor} {found : Found (List String) cursor}
    (h : mixins cursor = .ok found) : found.Obeys HasMixins := by
  rw [mixins] at h
  split at h
  · cases h
    exact ⟨[], .refl cursor, .missing⟩
  · next mark afterMark hmarkLess htake =>
    obtain ⟨htakes, hmark⟩ := Cursor.takes_of_take? htake
    obtain ⟨⟨first, afterFirst, hfirstLess⟩, hfirst, h⟩ := bind_eq_ok.1 h
    obtain ⟨hfirstTakes, hfirst⟩ := Cursor.takes_of_expectAs hfirst
    obtain ⟨others, hothers, hkinds, htexts⟩ := names_obeys afterFirst
    cases h
    refine ⟨_, htakes.trans (hfirstTakes.trans hothers), ?_⟩
    dsimp only
    rw [htexts]
    exact .present hmark hfirst hkinds

/-- Derived mixins are read as derived. Behind a class without any, neither a
name nor the word for mixins may follow. -/
theorem mixins_accepts {taken : List Token} {names : List String} (h : HasMixins taken names)
    {cursor after : Cursor} (htakes : cursor.Takes taken after) (hafter : after.kind ≠ .ident)
    (hmissing : after.kind ≠ .includesWord) :
    ∃ hle, mixins cursor = .ok ⟨names, after, hle⟩ := by
  cases h with
  | missing =>
      obtain rfl := htakes.unique (.refl cursor)
      rw [mixins, Cursor.take?_of_kind_ne hmissing]
      exact ⟨Nat.le_refl _, rfl⟩
  | present hmark hfirst hothers =>
      obtain ⟨_, hmarkTakes, hrest⟩ := htakes.uncons
      obtain ⟨_, hfirstTakes, hothersTakes⟩ := hrest.uncons
      obtain ⟨_, htake⟩ := hmarkTakes.take? hmark
      obtain ⟨_, hread⟩ := hfirstTakes.expectAs hfirst "a mixin class name"
      obtain ⟨_, hnames⟩ := names_accepts hothers hothersTakes hafter
      rw [mixins, htake]
      dsimp only
      rw [bind_of_ok hread]
      dsimp only
      rw [hnames]
      exact ⟨Nat.le_of_lt htakes.shorter, rfl⟩

theorem kind_of_hasMixins {taken : List Token} {names : List String} (h : HasMixins taken names)
    {cursor after : Cursor} (htakes : cursor.Takes taken after) :
    cursor.kind = .includesWord ∨ cursor.kind = after.kind := by
  cases h with
  | missing =>
      obtain rfl := htakes.unique (.refl cursor)
      exact .inr rfl
  | present hmark _ _ => exact .inl (htakes.kind.trans hmark)

variable {workspace : Workspace}

theorem classFields_obeys {cursor : Cursor} {parsed : Parsed (List (Field TypeExpr)) cursor}
    (h : classFields workspace cursor = .ok parsed) :
    parsed.Obeys (UpTo .rightBracket (AreFields workspace false)) := by
  rw [classFields] at h
  cases hend : cursor.take? .rightBracket with
  | some closing =>
      obtain ⟨htakes, hclosing⟩ := Cursor.takes_of_take? hend
      rw [hend] at h
      cases h
      exact ⟨_, htakes, .nil hclosing .nil⟩
  | none =>
      have hopen := Cursor.kind_ne_of_take? hend (by simp)
      rw [hend] at h
      obtain ⟨⟨first, afterFirst, hless⟩, hfield, h⟩ := bind_eq_ok.1 h
      obtain ⟨others, hread, h⟩ := bind_eq_ok.1 h
      rw [inContext_eq_ok] at hfield
      obtain ⟨taken, htaken, hrule⟩ := field_obeys hfield
      cases h
      exact (classFields_obeys hread).behind htaken hopen fun _ hrest => .cons hrule hrest
termination_by cursor.tokens.length

theorem classFields_accepts {inObjectType : Bool} {inner : List Token}
    {fields : List (Field TypeExpr)} (h : AreFields workspace inObjectType inner fields)
    (hclass : inObjectType = false) {closing : Token} (hclosing : closing.kind = .rightBracket)
    {cursor after : Cursor} (htakes : cursor.Takes (inner ++ [closing]) after) :
    ∃ hless, classFields workspace cursor = .ok ⟨fields, after, hless⟩ := by
  match h, hclass with
  | .nil, _ =>
      obtain ⟨hless, htake⟩ := htakes.take? hclosing
      rw [classFields, htake]
      exact ⟨hless, rfl⟩
  | .cons hfield hrest, hclass =>
      rw [List.append_assoc] at htakes
      obtain ⟨_, hfieldTakes, hbehind⟩ := htakes.split
      obtain ⟨_, hread⟩ := field_accepts hfield hfieldTakes
      obtain ⟨_, hothers⟩ := classFields_accepts hrest hclass hclosing hbehind
      subst hclass
      obtain ⟨first, _, rfl, hfirst⟩ := hfield.start
      have hopen : cursor.take? .rightBracket = none :=
        Cursor.take?_of_kind_ne (by simp [htakes.kind, hfirst])
      rw [classFields, hopen]
      dsimp only
      rw [bind_of_ok (inContext_eq_ok.2 hread)]
      dsimp only
      rw [bind_of_ok hothers]
      exact ⟨htakes.shorter, rfl⟩
termination_by structural h

/-- A class that was read is derived by the grammar, each of its parts from the
tokens between those of its neighbours. -/
theorem classDecl_obeys {cursor : Cursor} {parsed : Parsed ClassDecl cursor}
    (h : classDecl workspace cursor = .ok parsed) :
    parsed.Obeys (IsClass workspace) := by
  rw [classDecl, inContext_eq_ok] at h
  obtain ⟨⟨mark, afterMark, hmarkLess⟩, hmark, h⟩ := bind_eq_ok.1 h
  obtain ⟨⟨name, afterName, hnameLess⟩, hname, h⟩ := bind_eq_ok.1 h
  obtain ⟨⟨parameters, afterParameters, hparametersLess⟩, hparameters, h⟩ := bind_eq_ok.1 h
  obtain ⟨⟨base, afterBase, hbaseLess⟩, hbase, h⟩ := bind_eq_ok.1 h
  obtain ⟨⟨mixins, afterMixins, hmixinsLess⟩, hmixins, h⟩ := bind_eq_ok.1 h
  obtain ⟨⟨opening, afterOpening, hopeningLess⟩, hopening, h⟩ := bind_eq_ok.1 h
  obtain ⟨⟨fields, afterFields, hfieldsLess⟩, hfields, h⟩ := bind_eq_ok.1 h
  obtain ⟨⟨semicolon, after, hless⟩, hend, h⟩ := bind_eq_ok.1 h
  obtain ⟨hmarkTakes, hmark⟩ := Cursor.takes_of_expect hmark
  obtain ⟨hnameTakes, hname⟩ := Cursor.takes_of_expectAs hname
  obtain ⟨parameterTokens, hparametersTakes, hparameters⟩ := parameters_obeys hparameters
  obtain ⟨baseTokens, hbaseTakes, hbase⟩ := baseClass_obeys hbase
  obtain ⟨mixinTokens, hmixinsTakes, hmixins⟩ := mixins_obeys hmixins
  obtain ⟨hopeningTakes, hopening⟩ := Cursor.takes_of_expect hopening
  obtain ⟨_, hfieldsTakes, @⟨fieldTokens, closing, _, _, hclosing, hfields⟩⟩ :=
    classFields_obeys hfields
  obtain ⟨hendTakes, hend⟩ := Cursor.takes_of_expect hend
  cases h
  have hall : cursor.Takes (mark :: name :: (parameterTokens ++ (baseTokens ++ (mixinTokens ++
      opening :: (fieldTokens ++ [closing, semicolon]))))) after := by
    simpa using hmarkTakes.trans (hnameTakes.trans (hparametersTakes.trans (hbaseTakes.trans
      (hmixinsTakes.trans (hopeningTakes.trans (hfieldsTakes.trans hendTakes))))))
  refine ⟨_, hall, ?_⟩
  dsimp only
  rw [hmarkTakes.current, hall.merge]
  exact .intro hmark hname hparameters hbase hmixins hopening hfields hclosing hend

/-- A derived class is read as derived. Each part ends where a token stands that
cannot belong to it. -/
theorem classDecl_accepts {taken : List Token} {decl : ClassDecl}
    (h : IsClass workspace taken decl) {cursor after : Cursor}
    (htakes : cursor.Takes taken after) :
    ∃ hless, classDecl workspace cursor = .ok ⟨decl, after, hless⟩ := by
  cases h with
  | @intro mark name opening closing semicolon parameterTokens baseTokens mixinTokens fieldTokens
      _ _ _ _ hmark hname hparameters hbase hmixins hopening hfields hclosing hend =>
      have hall : cursor.Takes (mark :: name :: (parameterTokens ++ (baseTokens ++ (mixinTokens ++
          opening :: ((fieldTokens ++ [closing]) ++ [semicolon]))))) after := by
        simpa using htakes
      obtain ⟨_, hmarkTakes, hfromName⟩ := hall.uncons
      obtain ⟨_, hnameTakes, hfromParameters⟩ := hfromName.uncons
      obtain ⟨_, hparametersTakes, hfromBase⟩ := hfromParameters.split
      obtain ⟨afterBase, hbaseTakes, hfromMixins⟩ := hfromBase.split
      obtain ⟨afterMixins, hmixinsTakes, hfromOpening⟩ := hfromMixins.split
      obtain ⟨_, hopeningTakes, hfromFields⟩ := hfromOpening.uncons
      obtain ⟨_, hfieldsTakes, hendTakes⟩ := hfromFields.split
      have hbracket : afterMixins.kind = .leftBracket := hfromOpening.kind.trans hopening
      obtain ⟨_, hmarkRead⟩ := hmarkTakes.expect hmark
      obtain ⟨_, hnameRead⟩ := hnameTakes.expectAs hname "a class name"
      have hmixinsKind := kind_of_hasMixins hmixins hmixinsTakes
      have hbaseKind := kind_of_hasBase hbase hbaseTakes
      rw [hbracket] at hmixinsKind
      obtain ⟨_, hparametersRead⟩ := parameters_accepts hparameters hparametersTakes <| by
        rcases hbaseKind with hkind | hkind
        · simp [hkind]
        · rcases hmixinsKind with hnext | hnext <;> simp [hkind, hnext]
      obtain ⟨_, hbaseRead⟩ := baseClass_accepts hbase hbaseTakes <| by
        rcases hmixinsKind with hkind | hkind <;> simp [hkind]
      obtain ⟨_, hmixinsRead⟩ := mixins_accepts hmixins hmixinsTakes
        (by simp [hbracket]) (by simp [hbracket])
      obtain ⟨_, hopeningRead⟩ := hopeningTakes.expect hopening
      obtain ⟨_, hfieldsRead⟩ := classFields_accepts hfields rfl hclosing hfieldsTakes
      obtain ⟨_, hendRead⟩ := hendTakes.expect hend
      refine ⟨htakes.shorter, inContext_eq_ok.2 ?_⟩
      rw [bind_of_ok hmarkRead]
      dsimp only
      rw [bind_of_ok hnameRead]
      dsimp only
      rw [bind_of_ok hparametersRead]
      dsimp only
      rw [bind_of_ok hbaseRead]
      dsimp only
      rw [bind_of_ok hmixinsRead]
      dsimp only
      rw [bind_of_ok hopeningRead]
      dsimp only
      rw [bind_of_ok hfieldsRead]
      dsimp only
      rw [bind_of_ok hendRead, hmarkTakes.current]
      dsimp only
      rw [htakes.merge]
      rfl

end ConfigNotation
