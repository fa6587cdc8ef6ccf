import ConfigNotation.Proofs.Syntax.AliasEnd
import ConfigNotation.Proofs.Syntax.PatternTrees

/-!
Semicolons in front of the closing bracket of a group. The grammar that lets every last
entry do without its mark derives the same leaves when such a semicolon is taken away, at
any depth. The reader agrees unless the semicolon ends the alias of a key: then nothing is
read.
-/

namespace ConfigNotation.Grammar

/-- A semicolon in front of a closing bracket is taken away. -/
inductive Trims : List Token → List Token → Prop where
  | here {mark : Token} {rest : List Token} (hmark : mark.kind = .semicolon)
      (hclosing : rest.head?.map (·.kind) = some .rightBracket) :
      Trims (mark :: rest) rest
  | later (token : Token) {full cut : List Token} (hrest : Trims full cut) :
      Trims (token :: full) (token :: cut)

section

variable {mark token closing last : Token} {ends inner rest full cut : List Token}
  {place : Nat} {leaves : List Leaf}

/-- The mark in front of a closing bracket can be taken away at any place of a
list of tokens. -/
theorem trims_append (before : List Token) (hmark : mark.kind = .semicolon)
    (hclosing : closing.kind = .rightBracket) :
    Trims (before ++ mark :: closing :: rest) (before ++ closing :: rest) := by
  induction before with
  | nil => exact .here hmark (congrArg some hclosing)
  | cons token _ ih => exact .later token ih

/-- If the first token is no semicolon, the mark that is taken away stands
behind it. -/
theorem Trims.uncons (h : Trims (token :: full) cut) (hkind : token.kind ≠ .semicolon) :
    ∃ other, Trims full other ∧ cut = token :: other := by
  cases h with
  | here hmark => exact absurd hmark hkind
  | later _ hrest => exact ⟨_, hrest, rfl⟩

theorem not_trims_singleton : ¬Trims [last] cut := by
  intro h
  cases h with
  | here _ hclosing => cases hclosing
  | later _ hrest => cases hrest

/-- What is taken away from a text stands in front of a token that is no
semicolon, or behind it. -/
theorem Trims.split (front : List Token) (h : Trims (front ++ last :: rest) cut)
    (hkind : last.kind ≠ .semicolon) :
    (∃ other, Trims (front ++ [last]) other ∧ cut = other ++ rest) ∨
      ∃ other, Trims rest other ∧ cut = front ++ last :: other := by
  induction front generalizing cut with
  | nil =>
      obtain ⟨other, hother, rfl⟩ := h.uncons hkind
      exact .inr ⟨other, hother, rfl⟩
  | cons token front ih =>
      cases h with
      | here hmark hclosing =>
          refine .inl ⟨front ++ [last], .here hmark ?_, by simp⟩
          cases front <;> exact hclosing
      | later _ hrest =>
          rcases ih hrest with ⟨other, hother, rfl⟩ | ⟨other, hother, rfl⟩
          · exact .inl ⟨token :: other, .later token hother, rfl⟩
          · exact .inr ⟨other, hother, rfl⟩

theorem IsGroup.getLast {aliasEnd : AliasEnd} (h : IsGroup aliasEnd full leaves) :
    ∃ front last, full = front ++ [last] ∧ last.kind = .rightBracket := by
  cases h with
  | @intro opening closing inner _ _ _ hclosing => exact ⟨opening :: inner, closing, rfl, hclosing⟩

theorem AreEntries.eq_nil (h : AreEntries .optional place [] leaves) : leaves = [] := by
  generalize htokens : [] = tokens at h
  cases h with
  | nil => rfl
  | name | empty | skip | keyedName | keyedGroup => cases htokens
  | group hgroup =>
      obtain ⟨_, _, rfl, _⟩ := hgroup.start
      cases htokens

/-- No entry starts with a closing bracket. -/
theorem AreEntries.nil_of_head? (h : AreEntries .optional place inner leaves)
    (hstart : (inner ++ [last]).head?.map (·.kind) = some .rightBracket) : inner = [] := by
  cases h with
  | nil => rfl
  | name hkind | empty hkind | skip hkind | keyedName hkind | keyedGroup hkind =>
      cases hkind.symm.trans (Option.some.inj hstart)
  | group hgroup =>
      obtain ⟨_, _, rfl, hkind⟩ := hgroup.start
      cases hkind.symm.trans (Option.some.inj hstart)

section

variable (hrest : AreEntries .optional place rest leaves)
  (ih : ∀ {cut}, Trims (rest ++ [last]) cut →
    ∃ others, cut = others ++ [last] ∧ AreEntries .optional place others leaves)

include hrest ih

/-- What is taken away behind an entry is its own mark, if that is the last one,
or stands in the entries that follow. -/
theorem Separated.trim (hends : Separated .semicolon ends rest)
    (htrim : Trims (ends ++ (rest ++ [last])) cut) :
    ∃ ends others, cut = ends ++ (others ++ [last]) ∧ Separated .semicolon ends others ∧
      AreEntries .optional place others leaves := by
  cases hends with
  | mark hmark _ =>
      cases htrim with
      | here _ hclosing =>
          obtain rfl := hrest.nil_of_head? hclosing
          exact ⟨[], [], rfl, .last, hrest⟩
      | later _ hlater =>
          obtain ⟨others, rfl, hothers⟩ := ih hlater
          exact ⟨_, others, rfl, .mark hmark others, hothers⟩
  | last => exact absurd htrim not_trims_singleton

/-- The marks at the end of a group can be trimmed, and what is left is an end
of the group with the same entries in front. -/
theorem GroupEnd.trim (hends : GroupEnd ends rest)
    (htrim : Trims (ends ++ (rest ++ [last])) cut) :
    ∃ ends others, cut = ends ++ (others ++ [last]) ∧ GroupEnd ends others ∧
      AreEntries .optional place others leaves := by
  cases hends with
  | mark hmark _ =>
      cases htrim with
      | here _ hclosing =>
          obtain rfl := hrest.nil_of_head? hclosing
          exact ⟨[], [], rfl, .missing nofun, hrest⟩
      | later _ hlater =>
          obtain ⟨others, rfl, hothers⟩ := ih hlater
          exact ⟨_, others, rfl, .mark hmark others, hothers⟩
  | missing hstart =>
      cases rest with
      | nil => exact absurd htrim not_trims_singleton
      | cons first rest =>
          have hfirst := hstart first rfl
          obtain ⟨others, hothers, hentries⟩ := ih htrim
          refine ⟨[], others, hothers, .missing ?_, hentries⟩
          obtain ⟨other, -, rfl⟩ := htrim.uncons hfirst
          cases others with
          | nil => exact nofun
          | cons head _ =>
              cases hothers
              rintro _ ⟨⟩
              exact hfirst

/-- What is taken away from a group inside another one stands in it, or behind
it. -/
theorem IsGroup.trim_nested {tokens : List Token} {nested : List Leaf}
    (hgroup : IsGroup .optional tokens nested) (hends : GroupEnd ends rest)
    (htrim : Trims (tokens ++ (ends ++ (rest ++ [last]))) cut)
    (ihGroup : ∀ {cut}, Trims tokens cut → IsGroup .optional cut nested) :
    ∃ tokens ends others, cut = tokens ++ (ends ++ (others ++ [last])) ∧
      IsGroup .optional tokens nested ∧ GroupEnd ends others ∧
      AreEntries .optional place others leaves := by
  obtain ⟨front, closing, rfl, hclosing⟩ := hgroup.getLast
  rw [List.append_assoc, List.singleton_append] at htrim
  rcases htrim.split front (by simp [hclosing]) with ⟨tokens, hinside, rfl⟩ | ⟨_, hbehind, rfl⟩
  · exact ⟨tokens, ends, rest, rfl, ihGroup hinside, hends, hrest⟩
  · obtain ⟨ends, others, rfl, hends, hothers⟩ := hends.trim hrest ih hbehind
    exact ⟨front ++ [closing], ends, others, by simp, hgroup, hends, hothers⟩

end

end

mutual

/-- A group is derived with the same leaves when a last mark in it is taken
away. -/
theorem IsGroup.trim {full cut : List Token} {leaves : List Leaf}
    (h : IsGroup .optional full leaves) (htrim : Trims full cut) :
    IsGroup .optional cut leaves := by
  match h with
  | .intro hopening hentries hclosing =>
      obtain ⟨_, hinner, rfl⟩ := htrim.uncons (by simp [hopening])
      obtain ⟨others, rfl, hothers⟩ := hentries.trim hclosing hinner
      exact .intro hopening hothers hclosing
termination_by structural h

/-- Entries stay entries with the same leaves when a mark is taken away,
provided that no alias asks for its mark. The induction is on the entries, whose
groups go along. -/
theorem AreEntries.trim {place : Nat} {inner cut : List Token} {last : Token}
    {leaves : List Leaf} (h : AreEntries .optional place inner leaves)
    (hlast : last.kind = .rightBracket) (htrim : Trims (inner ++ [last]) cut) :
    ∃ others, cut = others ++ [last] ∧ AreEntries .optional place others leaves := by
  match h with
  | .nil _ => exact absurd htrim not_trims_singleton
  | @AreEntries.name _ _ name ends rest _ hname hends hrest =>
      obtain ⟨_, hbehind, rfl⟩ := htrim.uncons (by simp [hname])
      obtain ⟨ends, others, rfl, hends, hothers⟩ :=
        hends.trim hrest (hrest.trim hlast ·) (by simpa using hbehind)
      exact ⟨name :: (ends ++ others), by simp, .name hname hends hothers⟩
  | @AreEntries.empty _ _ semicolon rest _ hend hrest =>
      cases htrim with
      | here _ hclosing =>
          obtain rfl := hrest.nil_of_head? hclosing
          rw [hrest.eq_nil]
          exact ⟨[], rfl, .nil _⟩
      | later _ hlater =>
          obtain ⟨others, rfl, hothers⟩ := hrest.trim hlast hlater
          exact ⟨semicolon :: others, rfl, .empty hend hothers⟩
  | @AreEntries.skip _ _ word ends rest _ hword hends hrest =>
      obtain ⟨_, hbehind, rfl⟩ := htrim.uncons (by simp [hword])
      obtain ⟨ends, others, rfl, hends, hothers⟩ :=
        hends.trim hrest (hrest.trim hlast ·) (by simpa using hbehind)
      exact ⟨word :: (ends ++ others), by simp, .skip hword hends hothers⟩
  | .group hgroup hends hrest =>
      obtain ⟨tokens, ends, others, rfl, hgroup, hends, hothers⟩ :=
        hgroup.trim_nested hrest (hrest.trim hlast ·) hends (by simpa using htrim) (hgroup.trim ·)
      exact ⟨tokens ++ (ends ++ others), by simp, .group hgroup hends hothers⟩
  | @AreEntries.keyedName _ _ key arrow name ends rest _ hkey harrow hname hends _ hrest =>
      obtain ⟨_, hfromArrow, rfl⟩ := htrim.uncons (by simp [hkey])
      obtain ⟨_, hfromName, rfl⟩ := hfromArrow.uncons (by simp [harrow])
      obtain ⟨_, hbehind, rfl⟩ := hfromName.uncons (by simp [hname])
      obtain ⟨ends, others, rfl, hends, hothers⟩ :=
        hends.trim hrest (hrest.trim hlast ·) (by simpa using hbehind)
      exact ⟨key :: arrow :: name :: (ends ++ others), by simp,
        .keyedName hkey harrow hname hends nofun hothers⟩
  | @AreEntries.keyedGroup _ _ key arrow _ _ _ _ _ hkey harrow hgroup hends hrest =>
      obtain ⟨_, hfromArrow, rfl⟩ := htrim.uncons (by simp [hkey])
      obtain ⟨_, hbehind, rfl⟩ := hfromArrow.uncons (by simp [harrow])
      obtain ⟨tokens, ends, others, rfl, hgroup, hends, hothers⟩ :=
        hgroup.trim_nested hrest (hrest.trim hlast ·) hends (by simpa using hbehind) (hgroup.trim ·)
      exact ⟨key :: arrow :: (tokens ++ (ends ++ others)), by simp,
        .keyedGroup hkey harrow hgroup hends hothers⟩
termination_by structural h

end

/-- The tokens up to and with the bracket that closes what is open. `depth`
counts the groups around the first token. -/
def throughClosing (depth : Nat) : List Token → List Token
  | [] => []
  | token :: rest =>
      if token.kind = .leftBracket then token :: throughClosing (depth + 1) rest
      else if token.kind = .rightBracket then
        if depth ≤ 1 then [token] else token :: throughClosing (depth - 1) rest
      else token :: throughClosing depth rest

theorem throughClosing_cons {token : Token} (hopen : token.kind ≠ .leftBracket)
    (hclose : token.kind ≠ .rightBracket) (depth : Nat) (rest : List Token) :
    throughClosing depth (token :: rest) = token :: throughClosing depth rest := by
  rw [throughClosing, if_neg hopen, if_neg hclose]

theorem throughClosing_semicolons {ends : List Token}
    (h : ∀ token ∈ ends, token.kind = .semicolon) (depth : Nat) (rest : List Token) :
    throughClosing depth (ends ++ rest) = ends ++ throughClosing depth rest := by
  induction ends with
  | nil => rfl
  | cons token ends ih =>
      obtain ⟨hkind, hends⟩ := List.forall_mem_cons.1 h
      rw [List.cons_append, throughClosing_cons (by simp [hkind]) (by simp [hkind]), ih hends,
        List.cons_append]

mutual

/-- The end of a group is found at its own bracket, whatever groups it holds. -/
theorem IsGroup.throughClosing_append {aliasEnd : AliasEnd} {taken : List Token}
    {leaves : List Leaf} (h : IsGroup aliasEnd taken leaves) (depth : Nat) (rest : List Token) :
    throughClosing depth (taken ++ rest) =
      taken ++ if depth = 0 then [] else throughClosing depth rest := by
  match h with
  | @IsGroup.intro _ opening closing inner _ hopening hentries hclosing =>
      rw [List.cons_append, List.append_assoc, List.singleton_append, throughClosing,
        if_pos hopening, hentries.throughClosing_append, throughClosing, hclosing,
        if_neg nofun, if_pos rfl]
      cases depth <;> simp
termination_by structural h

/-- Entries open no group that they do not close. -/
theorem AreEntries.throughClosing_append {aliasEnd : AliasEnd} {place : Nat} {inner : List Token}
    {leaves : List Leaf} (h : AreEntries aliasEnd place inner leaves) (depth : Nat)
    (rest : List Token) :
    throughClosing (depth + 1) (inner ++ rest) = inner ++ throughClosing (depth + 1) rest := by
  match h with
  | .nil _ => rfl
  | .name hname hends hrest =>
      rw [List.cons_append, throughClosing_cons (by simp [hname]) (by simp [hname]),
        List.append_assoc, throughClosing_semicolons hends.kinds, hrest.throughClosing_append]
      simp
  | .empty hend hrest =>
      rw [List.cons_append, throughClosing_cons (by simp [hend]) (by simp [hend]),
        hrest.throughClosing_append, List.cons_append]
  | .skip hword hends hrest =>
      rw [List.cons_append, throughClosing_cons (by simp [hword]) (by simp [hword]),
        List.append_assoc, throughClosing_semicolons hends.kinds, hrest.throughClosing_append]
      simp
  | .group hgroup hends hrest =>
      rw [List.append_assoc, List.append_assoc, hgroup.throughClosing_append,
        if_neg (Nat.succ_ne_zero depth), throughClosing_semicolons hends.kinds,
        hrest.throughClosing_append]
      simp
  | .keyedName hkey harrow hname hends _ hrest =>
      rw [List.cons_append, throughClosing_cons (by simp [hkey]) (by simp [hkey]),
        List.cons_append, throughClosing_cons (by simp [harrow]) (by simp [harrow]),
        List.cons_append, throughClosing_cons (by simp [hname]) (by simp [hname]),
        List.append_assoc, throughClosing_semicolons hends.kinds, hrest.throughClosing_append]
      simp
  | .keyedGroup hkey harrow hgroup hends hrest =>
      rw [List.cons_append, throughClosing_cons (by simp [hkey]) (by simp [hkey]),
        List.cons_append, throughClosing_cons (by simp [harrow]) (by simp [harrow]),
        List.append_assoc, List.append_assoc, hgroup.throughClosing_append,
        if_neg (Nat.succ_ne_zero depth), throughClosing_semicolons hends.kinds,
        hrest.throughClosing_append]
      simp
termination_by structural h

end

/-- A group that starts some tokens is the only one that does. -/
theorem IsGroup.taken_unique {aliasEnd other : AliasEnd} {taken tokens rest more : List Token}
    {leaves others : List Leaf} (h : IsGroup aliasEnd taken leaves)
    (hother : IsGroup other tokens others) (hsame : taken ++ rest = tokens ++ more) :
    taken = tokens := by
  have hclosing := h.throughClosing_append 0 rest
  rw [hsame, hother.throughClosing_append 0 more] at hclosing
  simpa using hclosing.symm

def EndsInAlias (tokens : List Token) : Prop :=
  [.arrow, .ident] <:+ tokens.map (·.kind)

instance (tokens : List Token) : Decidable (EndsInAlias tokens) :=
  inferInstanceAs (Decidable (_ <:+ _))

/-- Where an arrow, a name and a closing bracket can stand in tokens that are
cut at a bracket. -/
theorem alias_infix_iff {front rest : List TokenKind} :
    [.arrow, .ident, .rightBracket] <:+: front ++ .rightBracket :: rest ↔
      [.arrow, .ident] <:+ front ∨ [.arrow, .ident, .rightBracket] <:+: front ∨
        [.arrow, .ident, .rightBracket] <:+: rest := by
  induction front with
  | nil => simp [List.infix_cons_iff]
  | cons kind front ih =>
      have hstart : [.arrow, .ident, .rightBracket] <+: kind :: (front ++ .rightBracket :: rest) ↔
          [.arrow, .ident] = kind :: front ∨
            [.arrow, .ident, .rightBracket] <+: kind :: front := by
        rcases front with _ | ⟨second, _ | ⟨third, front⟩⟩ <;> simp
      rw [List.cons_append, List.infix_cons_iff, List.infix_cons_iff, List.suffix_cons_iff, ih,
        hstart, or_assoc, or_assoc, or_assoc]
      exact or_congr_right or_left_comm

section

variable {token closing : Token} {front taken rest : List Token}

/-- A closing bracket parts what has to end its aliases. -/
theorem aliasesEnd_around (hclosing : closing.kind = .rightBracket) :
    AliasesEnd (front ++ closing :: rest) ↔
      ¬EndsInAlias front ∧ AliasesEnd front ∧ AliasesEnd rest := by
  simp only [AliasesEnd, EndsInAlias, List.map_append, List.map_cons, hclosing, alias_infix_iff,
    not_or]

theorem AliasesEnd.cons (h : AliasesEnd rest)
    (hstart : ¬[.arrow, .ident, .rightBracket] <+: (token :: rest).map (·.kind)) :
    AliasesEnd (token :: rest) := by
  intro hfound
  exact (List.infix_cons_iff.1 hfound).elim hstart h

theorem AliasesEnd.cons_of_ne (h : AliasesEnd rest) (hkind : token.kind ≠ .arrow) :
    AliasesEnd (token :: rest) := by
  refine h.cons fun hstart => hkind ?_
  exact (List.cons_prefix_cons.1 hstart).1.symm

theorem AliasesEnd.semicolons {ends : List Token} (h : AliasesEnd rest)
    (hends : ∀ token ∈ ends, token.kind = .semicolon) : AliasesEnd (ends ++ rest) := by
  induction ends with
  | nil => exact h
  | cons token ends ih =>
      obtain ⟨hkind, hends⟩ := List.forall_mem_cons.1 hends
      exact (ih hends).cons_of_ne (by simp [hkind])

theorem IsGroup.aliasesEnd_append {aliasEnd : AliasEnd} {leaves : List Leaf}
    (hgroup : IsGroup aliasEnd taken leaves) (htaken : AliasesEnd taken)
    (hrest : AliasesEnd rest) : AliasesEnd (taken ++ rest) := by
  obtain ⟨front, closing, rfl, hclosing⟩ := hgroup.getLast
  obtain ⟨hend, hfront, _⟩ := (aliasesEnd_around hclosing).1 htaken
  rw [List.append_assoc, List.singleton_append]
  exact (aliasesEnd_around hclosing).2 ⟨hend, hfront, hrest⟩

end

mutual

/-- The grammar that asks for the mark behind an alias derives nothing without
it. -/
theorem IsGroup.aliasesEnd {taken : List Token} {leaves : List Leaf}
    (h : IsGroup .required taken leaves) : AliasesEnd taken := by
  match h with
  | .intro hopening hentries hclosing =>
      exact (hentries.aliasesEnd hclosing).cons_of_ne (by simp [hopening])
termination_by structural h

/-- In entries that the grammar derives with all marks required, no alias stands
in front of a bracket. -/
theorem AreEntries.aliasesEnd {place : Nat} {inner : List Token} {closing : Token}
    {leaves : List Leaf} (h : AreEntries .required place inner leaves)
    (hclosing : closing.kind = .rightBracket) : AliasesEnd (inner ++ [closing]) := by
  match h with
  | .nil _ => simp [AliasesEnd, List.infix_cons_iff]
  | .name hname hends hrest =>
      rw [List.cons_append, List.append_assoc]
      exact ((hrest.aliasesEnd hclosing).semicolons hends.kinds).cons_of_ne (by simp [hname])
  | .empty hend hrest => exact (hrest.aliasesEnd hclosing).cons_of_ne (by simp [hend])
  | .skip hword hends hrest =>
      rw [List.cons_append, List.append_assoc]
      exact ((hrest.aliasesEnd hclosing).semicolons hends.kinds).cons_of_ne (by simp [hword])
  | .group hgroup hends hrest =>
      have hbehind := (hrest.aliasesEnd hclosing).semicolons hends.kinds
      rw [List.append_assoc, List.append_assoc]
      exact hgroup.aliasesEnd_append hgroup.aliasesEnd hbehind
  | @AreEntries.keyedName _ _ key _ name _ rest _ hkey harrow hname hends hwritten hrest =>
      cases hends with
      | last => exact absurd rfl (hwritten rfl)
      | @mark mark hmark _ =>
          have hfromMark : AliasesEnd (mark :: (rest ++ [closing])) :=
            (hrest.aliasesEnd hclosing).cons_of_ne (by simp [hmark])
          have hfromName : AliasesEnd (name :: mark :: (rest ++ [closing])) :=
            hfromMark.cons_of_ne (by simp [hname])
          exact (hfromName.cons (by simp [hmark])).cons_of_ne (by simp [hkey])
  | .keyedGroup hkey harrow hgroup hends hrest =>
      have htokens := hgroup.aliasesEnd
      have hbehind := (hrest.aliasesEnd hclosing).semicolons hends.kinds
      have hfromGroup := hgroup.aliasesEnd_append htokens hbehind
      obtain ⟨_, _, rfl, hopening⟩ := hgroup.start
      rw [List.cons_append, List.cons_append, List.append_assoc, List.append_assoc]
      exact (hfromGroup.cons (by simp [hopening])).cons_of_ne (by simp [hkey])
termination_by structural h

end

end ConfigNotation.Grammar

namespace ConfigNotation

open Grammar

/-- The semicolon in front of a closing bracket, in the pattern or in any group
of it, is optional: the same leaves are read without it. Only the one behind the
alias of a key is not, and no pattern is read without it. -/
theorem last_mark_optional {mark closing : Token} {before after rest : List Token}
    {leaves : List Leaf} {cursor other : Cursor} (hmark : mark.kind = .semicolon)
    (hclosing : closing.kind = .rightBracket)
    (hcursor : cursor.tokens = before ++ mark :: closing :: (after ++ rest))
    (hother : other.tokens = before ++ closing :: (after ++ rest))
    (hread : cursor.ReadsLeaves leaves rest) :
    (¬EndsInAlias before → other.ReadsLeaves leaves rest) ∧
      (EndsInAlias before → ∃ error, Parser.pattern other = .error error) := by
  have hcursor : cursor.tokens = (before ++ mark :: closing :: after) ++ rest := by simp [hcursor]
  have hother : other.tokens = (before ++ closing :: after) ++ rest := by simp [hother]
  have hgroup := (readsLeaves_iff hcursor).1 hread
  have hfull : IsGroup .optional (before ++ mark :: closing :: after) leaves :=
    hgroup.change nofun
  have hwithout := hfull.trim (trims_append before hmark hclosing)
  constructor
  · intro hend
    have hmarks := hgroup.aliasesEnd
    rw [← List.singleton_append, ← List.append_assoc, aliasesEnd_around hclosing] at hmarks
    obtain ⟨-, hbefore, hafter⟩ := hmarks
    have hends : AliasesEnd (before ++ closing :: after) := by
      refine (aliasesEnd_around hclosing).2 ⟨hend, fun hfound => hbefore ?_, hafter⟩
      exact hfound.trans ((List.prefix_append before [mark]).map _).isInfix
    exact (readsLeaves_iff hother).2 (hwithout.change fun _ => hends)
  · intro hend
    cases hparsed : Parser.pattern other with
    | error error => exact ⟨error, rfl⟩
    | ok parsed =>
        obtain ⟨taken, htaken, found, -, hfound⟩ := pattern_obeys hparsed
        obtain rfl := hfound.taken_unique hwithout (htaken.tokens.symm.trans hother)
        exact absurd hend ((aliasesEnd_around hclosing).1 hfound.aliasesEnd).1

section

open PatternEntry

/-- The entry `server => [host => h;]` without the end of its group. -/
def openServer : List Token :=
  [nameToken ⟨"server", by decide⟩, arrowToken, unplaced .leftBracket "[",
    nameToken ⟨"host", by decide⟩, arrowToken, nameToken ⟨"h", by decide⟩]

/-- In `[server => [host => h;]; rest;]` the mark behind `rest` is optional, and
the one behind the alias `h` is not. -/
theorem last_mark_optional_nested :
    let opening := unplaced .leftBracket "["
    let closing := unplaced .rightBracket "]"
    let rest := nameToken ⟨"rest", by decide⟩
    let leaves : List Leaf := [⟨["server", "host"], "h"⟩, ⟨["0"], "rest"⟩]
    let full := opening :: (openServer ++ [endToken, closing, endToken, rest, endToken, closing])
    let short := opening :: (openServer ++ [endToken, closing, endToken, rest, closing])
    let unended := opening :: (openServer ++ [closing, endToken, rest, endToken, closing])
    (Cursor.mk full .empty).ReadsLeaves leaves [] ∧
      (Cursor.mk short .empty).ReadsLeaves leaves [] ∧
      ∃ error, Parser.pattern ⟨unended, .empty⟩ = .error error := by
  intro opening closing rest leaves full short unended
  have hentries := areEntries_endedTokens 0
    [.keyedGroup ⟨"server", by decide⟩ [.keyedName ⟨"host", by decide⟩ ⟨"h", by decide⟩],
      .name ⟨"rest", by decide⟩]
  have hread : (Cursor.mk full .empty).ReadsLeaves leaves [] :=
    (readsLeaves_iff (List.append_nil full).symm).2 (.intro rfl hentries rfl)
  have hshort := @last_mark_optional endToken closing
    (opening :: (openServer ++ [endToken, closing, endToken, rest])) [] [] leaves
    ⟨full, .empty⟩ ⟨short, .empty⟩ rfl rfl rfl rfl hread
  have hunended := @last_mark_optional endToken closing (opening :: openServer)
    [endToken, rest, endToken, closing] [] leaves ⟨full, .empty⟩ ⟨unended, .empty⟩
    rfl rfl rfl rfl hread
  exact ⟨hread, hshort.1 (by decide), hunended.2 (by decide)⟩

end

/-- What the uses of a source bind, read without files. -/
def usedBindings? (source : String) : Option (Except ParseError (List Binding)) :=
  (lex source).toOption.map fun lexed =>
    (Module.ofTokens noFiles lexed.tokens).map fun module => module.uses.map (·.binding)

theorem unended_inner_alias_refused :
    usedBindings? "use [server => [host => h;]; rest;] from x; export h;" =
      some (.ok [.pattern [⟨["server", "host"], "h"⟩, ⟨["0"], "rest"⟩]]) ∧
    usedBindings? "use [server => [host => h]; rest;] from x; export h;" =
      some (.error ⟨.unexpectedToken "\";\"" "\"]\"", ⟨25, 26⟩, ⟨1, 26⟩, some .destructuring⟩) := by
  decide +kernel

end ConfigNotation
