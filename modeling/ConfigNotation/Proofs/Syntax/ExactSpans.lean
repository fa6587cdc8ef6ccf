import ConfigNotation.Proofs.Syntax.AliasEnd
import ConfigNotation.Proofs.Syntax.Consumption
import ConfigNotation.Proofs.Syntax.Order
import ConfigNotation.Proofs.Token.Tiling

/-!
Spans are exact. The span of an expression and that of a statement go from the start of
their first token to the end of their last one, and cover no other token. So the spans of
the parts of an expression lie in its own, one behind the other.
-/

namespace ConfigNotation

open Grammar Text

namespace Span

/-- Whether a token lies in a span as a whole. -/
def covers (span : Span) (token : Token) : Bool :=
  decide (span.start ≤ token.span.start) && decide (token.span.stop ≤ span.stop)

def Precedes (first second : Span) : Prop := first.stop ≤ second.start

def LiesIn (inner outer : Span) : Prop := outer.start ≤ inner.start ∧ inner.stop ≤ outer.stop

/-- A span goes from the start of the first of some tokens to the end of the
last one. -/
structure RunsOver (span : Span) (tokens : List Token) : Prop where
  first : ∃ token ∈ tokens.head?, span.start = token.span.start
  last : ∃ token ∈ tokens.getLast?, span.stop = token.span.stop

/-- A span is that of some of the tokens of a text. They stand side by side, it
goes from the first to the last of them, and they are all that it covers. -/
structure IsThatOf (span : Span) (tokens own : List Token) : Prop where
  adjacent : own <:+: tokens
  runsOver : span.RunsOver own
  nonempty : span.start < span.stop
  covered : tokens.filter span.covers = own

end Span

/-- Tokens that are not empty and lie one behind the other. -/
structure AreLaidOut (tokens : List Token) : Prop where
  nonempty : ∀ token ∈ tokens, token.span.start < token.span.stop
  ordered : tokens.Pairwise fun first second => first.span.Precedes second.span

section

variable {tokens own before after : List Token} {span : Span}

/-- A part of tokens that lie one behind the other does as well. -/
theorem AreLaidOut.part (h : AreLaidOut tokens) (hown : own <:+: tokens) : AreLaidOut own where
  nonempty token htoken := h.nonempty token (hown.subset htoken)
  ordered := h.ordered.sublist hown.sublist

theorem AreLaidOut.precedes (h : AreLaidOut (before ++ after)) {first second : Token}
    (hfirst : first ∈ before) (hsecond : second ∈ after) : first.span.Precedes second.span :=
  (List.pairwise_append.1 h.ordered).2.2 first hfirst second hsecond

namespace Span.RunsOver

theorem ne_nil (h : span.RunsOver own) : own ≠ [] := by
  rintro rfl
  obtain ⟨_, hfirst, _⟩ := h.first
  cases hfirst

/-- Tokens that a span runs over lie in it. -/
theorem covers (h : span.RunsOver own) (hown : AreLaidOut own) :
    ∀ token ∈ own, span.start ≤ token.span.start ∧ token.span.stop ≤ span.stop := by
  intro token htoken
  constructor
  · obtain ⟨first, hfirst, hstart⟩ := h.first
    obtain ⟨rest, rfl⟩ := List.head?_eq_some_iff.1 hfirst
    rw [hstart]
    rcases List.mem_cons.1 htoken with rfl | hrest
    · exact Nat.le_refl _
    · have hprecedes := (List.pairwise_cons.1 hown.ordered).1 token hrest
      exact Nat.le_trans (Nat.le_of_lt (hown.nonempty first List.mem_cons_self)) hprecedes
  · obtain ⟨last, hlast, hstop⟩ := h.last
    obtain ⟨front, rfl⟩ := List.getLast?_eq_some_iff.1 hlast
    rw [hstop]
    rcases List.mem_append.1 htoken with hfront | hsame
    · have hprecedes := hown.precedes hfront List.mem_cons_self
      have hsome := hown.nonempty last (List.mem_append_right _ List.mem_cons_self)
      exact Nat.le_trans hprecedes (Nat.le_of_lt hsome)
    · exact Nat.le_of_eq (congrArg (·.span.stop) (List.mem_singleton.1 hsame))

theorem start_lt_stop (h : span.RunsOver own) (hown : AreLaidOut own) :
    span.start < span.stop := by
  obtain ⟨first, rest, rfl⟩ := List.exists_cons_of_ne_nil h.ne_nil
  have hinside := h.covers hown first List.mem_cons_self
  have hsome := hown.nonempty first List.mem_cons_self
  omega

/-- A span that runs over a part of some tokens lies in one that runs over all
of them. -/
theorem liesIn {inner : List Token} {innerSpan : Span} (h : span.RunsOver own)
    (hown : AreLaidOut own) (hinner : innerSpan.RunsOver inner) (hpart : inner <:+: own) :
    innerSpan.LiesIn span := by
  obtain ⟨first, hfirst, hstart⟩ := hinner.first
  obtain ⟨last, hlast, hstop⟩ := hinner.last
  have hfirstIn := h.covers hown first (hpart.subset (List.mem_of_mem_head? hfirst))
  have hlastIn := h.covers hown last (hpart.subset (List.mem_of_getLast? hlast))
  rw [Span.LiesIn, hstart, hstop]
  exact ⟨hfirstIn.1, hlastIn.2⟩

theorem precedes {others : List Token} {other : Span} (h : span.RunsOver own)
    (hother : other.RunsOver others)
    (hordered : ∀ first ∈ own, ∀ second ∈ others, first.span.Precedes second.span) :
    span.Precedes other := by
  obtain ⟨last, hlast, hstop⟩ := h.last
  obtain ⟨first, hfirst, hstart⟩ := hother.first
  rw [Span.Precedes, hstop, hstart]
  exact hordered last (List.mem_of_getLast? hlast) first (List.mem_of_mem_head? hfirst)

/-- Of the tokens of a text a span covers just those that it runs over. -/
theorem isThatOf (h : span.RunsOver own) (htokens : AreLaidOut tokens) (hown : own <:+: tokens) :
    span.IsThatOf tokens own := by
  have hlaid := htokens.part hown
  refine ⟨hown, h, h.start_lt_stop hlaid, ?_⟩
  obtain ⟨before, after, rfl⟩ := hown
  obtain ⟨first, hfirst, hstart⟩ := h.first
  obtain ⟨last, hlast, hstop⟩ := h.last
  have hbefore : before.filter span.covers = [] := by
    refine List.filter_eq_nil_iff.2 fun token htoken hcovers => ?_
    have hinside : span.start ≤ token.span.start := by simp_all [Span.covers]
    have hsome := htokens.nonempty token (by simp [htoken])
    have hprecedes : token.span.stop ≤ first.span.start := by
      rw [List.append_assoc] at htokens
      exact htokens.precedes htoken (List.mem_append_left _ (List.mem_of_mem_head? hfirst))
    omega
  have hafter : after.filter span.covers = [] := by
    refine List.filter_eq_nil_iff.2 fun token htoken hcovers => ?_
    have hinside : token.span.stop ≤ span.stop := by simp_all [Span.covers]
    have hsome := htokens.nonempty token (by simp [htoken])
    have hprecedes : last.span.stop ≤ token.span.start :=
      htokens.precedes (List.mem_append_right _ (List.mem_of_getLast? hlast)) htoken
    omega
  have hall : own.filter span.covers = own := by
    refine List.filter_eq_self.2 fun token htoken => ?_
    have hinside := h.covers hlaid token htoken
    simp [Span.covers, hinside]
  rw [List.filter_append, List.filter_append, hbefore, hall, hafter]
  simp

/-- The span that two spans are merged to runs over the tokens of both, and over
those between. -/
theorem merge {others : List Token} {other : Span} (h : span.RunsOver own)
    (hother : other.RunsOver others) (between : List Token)
    (hlaid : AreLaidOut (own ++ (between ++ others))) :
    (span.merge other).RunsOver (own ++ (between ++ others)) := by
  have hown := hlaid.part (List.prefix_append own _).isInfix
  have hothers := hlaid.part ((List.suffix_append between others).trans
    (List.suffix_append own _)).isInfix
  have hprecedes : span.Precedes other := h.precedes hother fun first hfirst second hsecond =>
    hlaid.precedes hfirst (List.mem_append_right _ hsecond)
  have hfirstSome := h.start_lt_stop hown
  have hsecondSome := hother.start_lt_stop hothers
  rw [Span.Precedes] at hprecedes
  constructor
  · obtain ⟨first, hfirst, hstart⟩ := h.first
    refine ⟨first, ?_, ?_⟩
    · rw [List.head?_append, hfirst]
      rfl
    · rw [← hstart]
      exact Nat.min_eq_left (by omega)
  · obtain ⟨last, hlast, hstop⟩ := hother.last
    refine ⟨last, ?_, ?_⟩
    · rw [List.getLast?_append, List.getLast?_append, hlast]
      rfl
    · rw [← hstop]
      exact Nat.max_eq_right (by omega)

end Span.RunsOver

theorem runsOver_token (token : Token) : token.span.RunsOver [token] :=
  ⟨⟨token, rfl, rfl⟩, ⟨token, rfl, rfl⟩⟩

/-- The span that is merged from the first and the last token runs over all of
them, since they lie in order. -/
theorem runsOver_spanOf {first : Token} {rest : List Token} (hlaid : AreLaidOut (first :: rest)) :
    (spanOf (first :: rest)).RunsOver (first :: rest) := by
  cases rest with
  | nil =>
      have hsame : spanOf [first] = first.span := by simp [spanOf, Span.merge]
      rw [hsame]
      exact runsOver_token first
  | cons second rest =>
      obtain ⟨front, last, hsplit⟩ : ∃ front last, second :: rest = front ++ [last] :=
        ⟨_, _, (List.dropLast_concat_getLast (List.cons_ne_nil second rest)).symm⟩
      have hlast : (first :: second :: rest).getLast? = some last := by
        rw [hsplit, List.getLast?_cons, List.getLast?_concat]
        rfl
      rw [spanOf, hlast, hsplit]
      rw [hsplit] at hlaid
      exact (runsOver_token first).merge (runsOver_token last) front hlaid

end

section

variable {workspace : Workspace} {tokens : List Token}

theorem Grammar.IsOperand.runsOver {expr : Expr} (h : IsOperand workspace tokens expr)
    (hlaid : AreLaidOut tokens) : expr.span.RunsOver tokens := by
  cases h with
  | literal | path | name => exact runsOver_token _
  | call | classInstance => exact runsOver_spanOf hlaid
  | container hbody =>
      obtain ⟨first, rest, rfl, _⟩ := hbody.start
      exact runsOver_spanOf hlaid

/-- The span of an expression goes from the start of its first token to the end
of its last one, for every rule that can derive it. -/
theorem Grammar.IsExpr.runsOver {expr : Expr} (h : IsExpr workspace tokens expr)
    (hlaid : AreLaidOut tokens) : expr.span.RunsOver tokens := by
  cases h with
  | operand hoperand => exact hoperand.runsOver hlaid
  | @conditional first second mark _ _ hleft _ hright =>
      have hfirst := hlaid.part (List.prefix_append first _).isInfix
      have hsecond := hlaid.part ((List.suffix_cons mark second).trans
        (List.suffix_append first _)).isInfix
      exact (hleft.runsOver hfirst).merge (hright.runsOver hsecond) [mark] hlaid

/-- Expressions that are formed one behind the other have spans one behind the
other. -/
theorem Grammar.InOrder.pairwise_precedes {exprs : List Expr}
    (h : InOrder (IsExpr workspace) tokens exprs) (hlaid : AreLaidOut tokens) :
    exprs.Pairwise fun first second => first.span.Precedes second.span := by
  induction h with
  | nil => exact .nil
  | @cons before own rest expr others hown hrest ih =>
      have hbehind := hlaid.part (List.suffix_append before _).isInfix
      have hfirst := hbehind.part (List.prefix_append own rest).isInfix
      have hothers := hbehind.part (List.suffix_append own rest).isInfix
      refine List.pairwise_cons.2 ⟨fun other hother => ?_, ih hothers⟩
      obtain ⟨inner, hinner, hform⟩ := hrest.exists_infix other hother
      refine (hown.runsOver hfirst).precedes (hform.runsOver (hothers.part hinner)) ?_
      exact fun first hfirst second hsecond => hbehind.precedes hfirst (hinner.subset hsecond)

end

/-- The span of an expression is that of its tokens. The spans of its parts lie
in it, one behind the other. -/
structure Expr.SpanExact (workspace : Workspace) (tokens : List Token) (expr : Expr) : Prop where
  own : ∃ own, IsExpr workspace own expr ∧ expr.span.IsThatOf tokens own
  parts : ∀ part ∈ expr.parts, part.span.LiesIn expr.span
  siblings : expr.parts.Pairwise fun first second => first.span.Precedes second.span

/-- The span of a statement is that of its tokens, of which the last one is its
semicolon. -/
structure Span.IsOfStatement (span : Span) (tokens own : List Token) : Prop where
  exact : span.IsThatOf tokens own
  ended : ∃ semicolon ∈ own.getLast?, semicolon.kind = .semicolon

/-- Expressions in a statement: their spans lie in that of the statement, one
behind the other. -/
structure Span.Holds (span : Span) (exprs : List Expr) : Prop where
  inside : ∀ expr ∈ exprs, expr.span.LiesIn span
  ordered : exprs.Pairwise fun first second => first.span.Precedes second.span

/-- A module of which the spans of all expressions, at whatever depth, and those
of all statements are exact. -/
structure Module.SpansExact (workspace : Workspace) (tokens : List Token) (module : Module) :
    Prop where
  expressions : ∀ expr ∈ module.expressions, ∀ part, expr.Contains part →
    part.SpanExact workspace tokens
  imports : ∀ statement ∈ module.imports, ∃ own,
    IsImport .required workspace own statement ∧ statement.span.IsOfStatement tokens own
  uses : ∀ statement ∈ module.uses, ∃ own,
    IsUse .required workspace own statement ∧ statement.span.IsOfStatement tokens own ∧
      statement.span.Holds [statement.value]
  classes : ∀ decl ∈ module.classes, ∃ own,
    IsClass workspace own decl ∧ decl.span.IsOfStatement tokens own ∧
      decl.span.Holds decl.defaults

section

variable {workspace : Workspace} {tokens own : List Token}

/-- An expression among the tokens of a source has exactly the tokens in its
span that it is formed of, and its parts as well. -/
theorem Grammar.IsExpr.spanExact {expr : Expr} (h : IsExpr workspace own expr)
    (hlaid : AreLaidOut tokens) (hown : own <:+: tokens) : expr.SpanExact workspace tokens := by
  have hinside := hlaid.part hown
  have hruns := h.runsOver hinside
  refine ⟨⟨own, h, hruns.isThatOf hlaid hown⟩, fun part hpart => ?_,
    h.inOrder.pairwise_precedes hinside⟩
  obtain ⟨inner, hinner, hform⟩ := h.inOrder.exists_infix part hpart
  exact hruns.liesIn hinside (hform.runsOver (hinside.part hinner)) hinner

/-- What holds of an expression by its tokens holds of all its parts. -/
theorem Grammar.IsExpr.spansExact {expr : Expr} (h : IsExpr workspace own expr)
    (hlaid : AreLaidOut tokens) (hown : own <:+: tokens) :
    ∀ part, expr.Contains part → part.SpanExact workspace tokens := by
  intro part hpart
  suffices hform : ∃ inner, inner <:+: tokens ∧ IsExpr workspace inner part by
    obtain ⟨inner, hinner, hform⟩ := hform
    exact hform.spanExact hlaid hinner
  induction hpart with
  | refl => exact ⟨own, hown, h⟩
  | tail _ hlast ih =>
      obtain ⟨outer, houter, hform⟩ := ih
      obtain ⟨inner, hinner, hpart⟩ := hform.inOrder.exists_infix _ hlast
      exact ⟨inner, hinner.trans houter, hpart⟩

/-- Expressions that are formed in order of the tokens of a span lie in it, and
each of them ends before the next one starts. -/
theorem Span.RunsOver.holds {span : Span} {exprs : List Expr} (h : span.RunsOver own)
    (hlaid : AreLaidOut own) (hexprs : InOrder (IsExpr workspace) own exprs) :
    span.Holds exprs where
  inside expr hexpr := by
    obtain ⟨inner, hinner, hform⟩ := hexprs.exists_infix expr hexpr
    exact h.liesIn hlaid (hform.runsOver (hlaid.part hinner)) hinner
  ordered := hexprs.pairwise_precedes hlaid

theorem Grammar.IsImport.runsOver {statement : Import}
    (h : IsImport .required workspace own statement) (hlaid : AreLaidOut own) :
    statement.span.RunsOver own := by
  cases h with
  | binding | pattern => exact runsOver_spanOf hlaid

theorem Grammar.IsUse.runsOver {statement : Use} (h : IsUse .required workspace own statement)
    (hlaid : AreLaidOut own) : statement.span.RunsOver own := by
  cases h with
  | binding | pattern => exact runsOver_spanOf hlaid

theorem Grammar.IsClass.runsOver {decl : ClassDecl} (h : IsClass workspace own decl)
    (hlaid : AreLaidOut own) : decl.span.RunsOver own := by
  cases h with
  | intro => exact runsOver_spanOf hlaid

theorem Grammar.IsImport.ended {statement : Import}
    (h : IsImport .required workspace own statement) :
    ∃ semicolon ∈ own.getLast?, semicolon.kind = .semicolon := by
  cases h with
  | binding _ _ _ _ hend | pattern _ _ _ _ hend =>
      exact ⟨_, by simp [List.getLast?_cons, List.getLast?_append], hend⟩

theorem Grammar.IsUse.ended {statement : Use} (h : IsUse .required workspace own statement) :
    ∃ semicolon ∈ own.getLast?, semicolon.kind = .semicolon := by
  cases h with
  | binding _ _ _ _ hend | pattern _ _ _ _ _ hend =>
      exact ⟨_, by simp [List.getLast?_cons, List.getLast?_append], hend⟩

theorem Grammar.IsClass.ended {decl : ClassDecl} (h : IsClass workspace own decl) :
    ∃ semicolon ∈ own.getLast?, semicolon.kind = .semicolon := by
  cases h with
  | intro _ _ _ _ _ _ _ _ hend =>
      exact ⟨_, by simp [List.getLast?_cons, List.getLast?_append], hend⟩

/-- A module whose statements are formed in the order of the tokens has exact
spans, for the statements and for all expressions in them. -/
theorem Module.InOrder.spansExact {module : Module}
    (h : module.InOrder .required workspace tokens) (hlaid : AreLaidOut tokens) :
    module.SpansExact workspace tokens where
  expressions expr hexpr := by
    obtain ⟨own, hown, hform⟩ := h.exists_infix expr hexpr
    exact hform.spansExact hlaid hown
  imports statement hstatement := by
    obtain ⟨own, hown, hform⟩ := h.imports.exists_infix statement hstatement
    have hruns := hform.runsOver (hlaid.part hown)
    exact ⟨own, hform, ⟨hruns.isThatOf hlaid hown, hform.ended⟩⟩
  uses statement hstatement := by
    obtain ⟨own, hown, hform⟩ := h.uses.exists_infix statement hstatement
    have hruns := hform.runsOver (hlaid.part hown)
    exact ⟨own, hform, ⟨hruns.isThatOf hlaid hown, hform.ended⟩,
      hruns.holds (hlaid.part hown) hform.inOrder⟩
  classes decl hdecl := by
    obtain ⟨own, hown, hform⟩ := h.classes.exists_infix decl hdecl
    have hruns := hform.runsOver (hlaid.part hown)
    exact ⟨own, hform, ⟨hruns.isThatOf hlaid hown, hform.ended⟩,
      hruns.holds (hlaid.part hown) hform.inOrder⟩

end

/-- The tokens in front of the end of a text that is not too long are laid
out. -/
theorem areLaidOut_of_lex {source : String} {lexed : Lexed}
    (hsize : byteSize source.toList < 2 ^ 32) (hlex : lex source = .ok lexed) :
    AreLaidOut (beforeEnd lexed.tokens) := by
  obtain ⟨_, htiles⟩ := tiles_of_lex hsize hlex
  constructor
  · intro token htoken
    obtain ⟨hmember, hinside⟩ := inside_of_mem_beforeEnd htoken
    obtain ⟨before, after, hcut⟩ := htiles.cut token hmember hinside
    obtain ⟨c, rest, htext⟩ := List.exists_cons_of_ne_nil hcut.nonempty
    have hsome := c.utf8Size_pos
    rw [hcut.span, byteSize_append, htext, byteSize_cons]
    dsimp only
    omega
  · exact (htiles.ordered.sublist (List.takeWhile_sublist _)).imp fun h => h.2

/-- The spans of everything that is read from a text of fewer than 2 ^ 32 bytes
are exact: those of the statements and expressions of its module, and those of
the expressions that are read at any place, as loose ones are, which leave no
trace in the module. -/
theorem parsed_spans_exact {workspace : Workspace} {source : String} {lexed : Lexed}
    {module : Module} (hsize : byteSize source.toList < 2 ^ 32) (hlex : lex source = .ok lexed)
    (hmodule : Module.ofTokens workspace lexed.tokens = .ok module) :
    module.SpansExact workspace (beforeEnd lexed.tokens) ∧
      ∀ place, (Cursor.start lexed.tokens).Reaches place → ∀ read,
        Parser.expr workspace place = .ok read → ∀ part, read.value.Contains part →
          part.SpanExact workspace (beforeEnd lexed.tokens) := by
  have hlaid := areLaidOut_of_lex hsize hlex
  refine ⟨(Module.ofTokens_eq_ok_iff.1 hmodule).inOrder.spansExact hlaid, ?_⟩
  intro place hplace read hread
  obtain ⟨taken, htaken⟩ := hplace.takes
  obtain ⟨own, hown, hform⟩ := expr_obeys hread
  refine hform.spansExact hlaid ?_
  exact (List.suffix_append taken own).isInfix.trans (htaken.trans hown).isPrefix_beforeEnd.isInfix

/-- A source with a default inside a type, a call that is a loose expression,
and a conditional that is spread. -/
def layeredSource : String :=
  "class P(...b) [@k: [@i => 1;];]; 'é' f(b, c ? d); " ++
    "use [x] from [@* => a.b;]; export [...x ? a;];"

theorem parsed_spans_exact_layered :
    byteSize layeredSource.toList < 2 ^ 32 ∧ ∃ lexed module, lex layeredSource = .ok lexed ∧
      Module.ofTokens noFiles lexed.tokens = .ok module ∧ module.body.span = ⟨84, 95⟩ ∧
      module.SpansExact noFiles (beforeEnd lexed.tokens) ∧
      ∀ place, (Cursor.start lexed.tokens).Reaches place → ∀ read,
        Parser.expr noFiles place = .ok read → ∀ part, read.value.Contains part →
          part.SpanExact noFiles (beforeEnd lexed.tokens) := by
  have hsize : byteSize layeredSource.toList < 2 ^ 32 := by decide
  have hbody : ((lex layeredSource).toOption.bind fun lexed =>
      (Module.ofTokens noFiles lexed.tokens).toOption.map (·.body.span)) = some ⟨84, 95⟩ := by
    decide +kernel
  obtain ⟨lexed, hlexed, hbody⟩ := Option.bind_eq_some_iff.1 hbody
  obtain ⟨module, hmodule, hspan⟩ := Option.map_eq_some_iff.1 hbody
  have hlex := eq_ok_of_toOption hlexed
  have hread := eq_ok_of_toOption hmodule
  obtain ⟨hexact, hloose⟩ := parsed_spans_exact hsize hlex hread
  exact ⟨hsize, lexed, module, hlex, hread, hspan, hexact, hloose⟩

end ConfigNotation
