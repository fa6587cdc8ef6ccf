import ConfigNotation.Proofs.Syntax.Alike
import ConfigNotation.Proofs.Syntax.Modules
import Mathlib.Data.List.Forall2

/-!
The order of statements. A module keeps the imports, the uses and the classes each by
themselves, so statements of different sorts may change places, and loose expressions may
stand anywhere or be left out.
-/

namespace ConfigNotation.Grammar

open ConfigNotation.Parser

inductive StatementSort where
  | imported | used | declared | loose
  deriving DecidableEq

def StatementSort.ofKind : TokenKind → StatementSort
  | .importWord => imported
  | .useWord => used
  | .classWord => declared
  | _ => loose

/-- The sort of a statement by its first token. -/
def sortOf (statement : List Token) : StatementSort :=
  (statement.head?.map (·.kind)).elim .loose .ofKind

def ofSort (sort : StatementSort) (statements : List (List Token)) : List (List Token) :=
  statements.filter (sortOf · = sort)

section

variable (workspace : Workspace)

/-- The tokens of one statement in front of the export, its semicolon
included. -/
inductive IsStatement : List Token → Prop where
  | imported {tokens : List Token} {statement : Import}
      (h : IsImport .required workspace tokens statement) : IsStatement tokens
  | used {tokens : List Token} {statement : Use}
      (h : IsUse .required workspace tokens statement) : IsStatement tokens
  | declared {tokens : List Token} {decl : ClassDecl} (h : IsClass workspace tokens decl) :
      IsStatement tokens
  | loose {tokens : List Token} {semicolon : Token} {expr : Expr}
      (hexpr : IsExpr workspace tokens expr) (hend : semicolon.kind = .semicolon) :
      IsStatement (tokens ++ [semicolon])

inductive IsExport : List Token → Expr → Prop where
  | intro {mark semicolon : Token} {tokens : List Token} {body : Expr}
      (hmark : mark.kind = .exportWord) (hbody : IsExpr workspace tokens body)
      (hend : semicolon.kind = .semicolon) :
      IsExport (mark :: (tokens ++ [semicolon])) body

end

/-- Statements in another order. Those of each sort keep theirs, but for loose
expressions: they stand wherever they are wanted, if they are. -/
structure Rearranges (statements others : List (List Token)) : Prop where
  kept : ∀ sort, sort ≠ .loose →
    List.Forall₂ Alike (ofSort sort statements) (ofSort sort others)
  loose : ∀ other ∈ others, sortOf other = .loose → ∃ statement ∈ statements, Alike statement other

section

variable {workspace : Workspace} {group : List Token}

theorem sortOf_of_isImport {statement : Import} (h : IsImport .required workspace group statement) :
    sortOf group = .imported := by
  obtain ⟨first, rest, rfl, hkind⟩ := h.start
  exact congrArg StatementSort.ofKind hkind

theorem sortOf_of_isUse {statement : Use} (h : IsUse .required workspace group statement) :
    sortOf group = .used := by
  obtain ⟨first, rest, rfl, hkind⟩ := h.start
  exact congrArg StatementSort.ofKind hkind

theorem sortOf_of_isClass {decl : ClassDecl} (h : IsClass workspace group decl) :
    sortOf group = .declared := by
  obtain ⟨first, rest, rfl, hkind⟩ := h.start
  exact congrArg StatementSort.ofKind hkind

theorem ofKind_of_startsValue {kind : TokenKind} (h : startsValue kind = true) :
    StatementSort.ofKind kind = .loose := by
  cases kind <;> first | rfl | cases h

theorem sortOf_of_isExpr {expr : Expr} (h : IsExpr workspace group expr) (rest : List Token) :
    sortOf (group ++ rest) = .loose := by
  obtain ⟨first, inner, rfl, hstart⟩ := h.start
  exact ofKind_of_startsValue hstart

/-- Statements of the other sorts start in other ways, so that a statement
without their words is an expression. -/
theorem IsStatement.of_loose (h : IsStatement workspace group) (hsort : sortOf group = .loose) :
    ∃ tokens semicolon expr, group = tokens ++ [semicolon] ∧ semicolon.kind = .semicolon ∧
      IsExpr workspace tokens expr := by
  cases h with
  | imported h => cases hsort.symm.trans (sortOf_of_isImport h)
  | used h => cases hsort.symm.trans (sortOf_of_isUse h)
  | declared h => cases hsort.symm.trans (sortOf_of_isClass h)
  | loose hexpr hend => exact ⟨_, _, _, rfl, hend, hexpr⟩

theorem IsStatement.alike {other : List Token} (h : IsStatement workspace group)
    (halike : Alike group other) : IsStatement workspace other := by
  cases h with
  | imported h =>
      obtain ⟨_, hfound, _⟩ := h.alike halike
      exact .imported hfound
  | used h =>
      obtain ⟨_, hfound, _⟩ := h.alike halike
      exact .used hfound
  | declared h =>
      obtain ⟨_, hfound, _⟩ := h.alike halike
      exact .declared hfound
  | loose hexpr hend =>
      obtain ⟨tokens, _, rfl, htokens, hrest⟩ := halike.split
      obtain ⟨semicolon, rfl, htag⟩ := hrest.single
      obtain ⟨_, hfound, _⟩ := hexpr.alike htokens
      exact .loose hfound (kind_eq_of_tag htag hend)

theorem IsExport.alike {other : List Token} {body : Expr} (h : IsExport workspace group body)
    (halike : Alike group other) :
    ∃ found, IsExport workspace other found ∧ found.spanless = body.spanless := by
  cases h with
  | intro hmark hbody hend =>
      obtain ⟨mark, tokens, semicolon, rfl, hmarkTag, htokens, hendTag⟩ := halike.unbracket
      obtain ⟨found, hfound, hsame⟩ := hbody.alike htokens
      exact ⟨found, .intro (kind_eq_of_tag hmarkTag hmark) hfound
        (kind_eq_of_tag hendTag hend), hsame⟩

end

def Reads {α : Type} (rule : List Token → α → Prop) (sort : StatementSort)
    (statements : List (List Token)) (values : List α) : Prop :=
  List.Forall₂ rule (ofSort sort statements) values

/-- The statements of a module, sort by sort. -/
structure Collects (workspace : Workspace) (statements : List (List Token)) (module : Module) :
    Prop where
  imports : Reads (IsImport .required workspace) .imported statements module.imports
  uses : Reads (IsUse .required workspace) .used statements module.uses
  classes : Reads (IsClass workspace) .declared statements module.classes
  loose : ∀ statement ∈ statements, sortOf statement = .loose → IsStatement workspace statement

section

variable {group : List Token} {statements : List (List Token)}

theorem reads_cons_self {α : Type} {rule : List Token → α → Prop} {sort : StatementSort}
    {values : List α} (h : sortOf group = sort) :
    Reads rule sort (group :: statements) values ↔
      ∃ first others, rule group first ∧ Reads rule sort statements others ∧
        values = first :: others := by
  rw [Reads, ofSort, List.filter_cons_of_pos (by simpa using h), List.forall₂_cons_left_iff]
  rfl

theorem reads_cons_of_ne {α : Type} {rule : List Token → α → Prop} {sort other : StatementSort}
    {values : List α} (h : sortOf group = other) (hne : other ≠ sort) :
    Reads rule sort (group :: statements) values ↔ Reads rule sort statements values := by
  rw [Reads, ofSort, List.filter_cons_of_neg (by simpa [h] using hne)]
  rfl

variable {workspace : Workspace} {module : Module}

/-- Statements in front of an export form the module that collects them. -/
theorem Collects.isModule (h : Collects workspace statements module) {last : List Token}
    (hlast : IsExport workspace last module.body) :
    IsModule .required workspace (statements.flatten ++ last) module := by
  induction statements generalizing module with
  | nil =>
      obtain ⟨imports, uses, classes, body⟩ := module
      obtain ⟨himports, huses, hclasses, -⟩ := h
      cases himports
      cases huses
      cases hclasses
      cases hlast with
      | intro hmark hbody hend => exact .exported hmark hbody hend
  | cons group rest ih =>
      obtain ⟨imports, uses, classes, body⟩ := module
      obtain ⟨himports, huses, hclasses, hloose⟩ := h
      obtain ⟨hgroup, hrest⟩ := List.forall_mem_cons.1 hloose
      rw [List.flatten_cons, List.append_assoc]
      cases hsort : sortOf group with
      | imported =>
          obtain ⟨first, others, hfirst, hothers, rfl⟩ := (reads_cons_self hsort).1 himports
          have huses := (reads_cons_of_ne hsort (by decide)).1 huses
          have hclasses := (reads_cons_of_ne hsort (by decide)).1 hclasses
          have hcollects : Collects workspace rest ⟨others, uses, classes, body⟩ :=
            ⟨hothers, huses, hclasses, hrest⟩
          exact .imported hfirst (ih hcollects hlast)
      | used =>
          obtain ⟨first, others, hfirst, hothers, rfl⟩ := (reads_cons_self hsort).1 huses
          have himports := (reads_cons_of_ne hsort (by decide)).1 himports
          have hclasses := (reads_cons_of_ne hsort (by decide)).1 hclasses
          have hcollects : Collects workspace rest ⟨imports, others, classes, body⟩ :=
            ⟨himports, hothers, hclasses, hrest⟩
          exact .used hfirst (ih hcollects hlast)
      | declared =>
          obtain ⟨first, others, hfirst, hothers, rfl⟩ := (reads_cons_self hsort).1 hclasses
          have himports := (reads_cons_of_ne hsort (by decide)).1 himports
          have huses := (reads_cons_of_ne hsort (by decide)).1 huses
          have hcollects : Collects workspace rest ⟨imports, uses, others, body⟩ :=
            ⟨himports, huses, hothers, hrest⟩
          exact .declared hfirst (ih hcollects hlast)
      | loose =>
          have himports := (reads_cons_of_ne hsort (by decide)).1 himports
          have huses := (reads_cons_of_ne hsort (by decide)).1 huses
          have hclasses := (reads_cons_of_ne hsort (by decide)).1 hclasses
          have hmodule := ih ⟨himports, huses, hclasses, hrest⟩ hlast
          -- it leaves no trace, but it has to be complete to be passed over
          obtain ⟨tokens, semicolon, expr, rfl, hend, hexpr⟩ := (hgroup hsort).of_loose hsort
          rw [List.append_assoc]
          exact .loose hexpr hend hmodule

/-- Complete statements are collected to some module. -/
theorem exists_collects (h : ∀ statement ∈ statements, IsStatement workspace statement)
    (body : Expr) : ∃ module, Collects workspace statements module ∧ module.body = body := by
  induction statements with
  | nil => exact ⟨⟨[], [], [], body⟩, ⟨.nil, .nil, .nil, nofun⟩, rfl⟩
  | cons group rest ih =>
      obtain ⟨hgroup, hrest⟩ := List.forall_mem_cons.1 h
      obtain ⟨⟨imports, uses, classes, _⟩, ⟨himports, huses, hclasses, hloose⟩, rfl⟩ := ih hrest
      have hloose : ∀ statement ∈ group :: rest, sortOf statement = .loose →
          IsStatement workspace statement := List.forall_mem_cons.2 ⟨fun _ => hgroup, hloose⟩
      have himports' (hsort : sortOf group ≠ .imported) := (reads_cons_of_ne rfl hsort).2 himports
      have huses' (hsort : sortOf group ≠ .used) := (reads_cons_of_ne rfl hsort).2 huses
      have hclasses' (hsort : sortOf group ≠ .declared) := (reads_cons_of_ne rfl hsort).2 hclasses
      cases hgroup with
      | @imported _ first hfirst =>
          have hsort := sortOf_of_isImport hfirst
          have himports := (reads_cons_self hsort).2 ⟨first, imports, hfirst, himports, rfl⟩
          exact ⟨⟨first :: imports, uses, classes, _⟩, ⟨himports, huses' (by simp [hsort]),
            hclasses' (by simp [hsort]), hloose⟩, rfl⟩
      | @used _ first hfirst =>
          have hsort := sortOf_of_isUse hfirst
          have huses := (reads_cons_self hsort).2 ⟨first, uses, hfirst, huses, rfl⟩
          exact ⟨⟨imports, first :: uses, classes, _⟩, ⟨himports' (by simp [hsort]), huses,
            hclasses' (by simp [hsort]), hloose⟩, rfl⟩
      | @declared _ first hfirst =>
          have hsort := sortOf_of_isClass hfirst
          have hclasses := (reads_cons_self hsort).2 ⟨first, classes, hfirst, hclasses, rfl⟩
          exact ⟨⟨imports, uses, first :: classes, _⟩, ⟨himports' (by simp [hsort]),
            huses' (by simp [hsort]), hclasses, hloose⟩, rfl⟩
      | @loose _ semicolon _ hexpr _ =>
          have hsort := sortOf_of_isExpr hexpr [semicolon]
          exact ⟨⟨imports, uses, classes, _⟩, ⟨himports' (by simp [hsort]),
            huses' (by simp [hsort]), hclasses' (by simp [hsort]), hloose⟩, rfl⟩

/-- What is read from lists of tokens one by one is read from lists that are
alike, up to whatever a single one is read up to. -/
theorem forall₂_alike {α : Type} {rule : List Token → α → Prop} {view : α → α}
    (hrule : ∀ {tokens others value}, rule tokens value → Alike tokens others →
      ∃ found, rule others found ∧ view found = view value)
    {groups others : List (List Token)} {values : List α} (h : List.Forall₂ rule groups values)
    (halike : List.Forall₂ Alike groups others) :
    ∃ found, List.Forall₂ rule others found ∧ found.map view = values.map view := by
  induction h generalizing others with
  | nil =>
      cases halike
      exact ⟨[], .nil, rfl⟩
  | cons hfirst _ ih =>
      cases halike with
      | cons hfirstAlike hrestAlike =>
          obtain ⟨first, hfirst, hsameFirst⟩ := hrule hfirst hfirstAlike
          obtain ⟨rest, hrest, hsameRest⟩ := ih hrestAlike
          refine ⟨first :: rest, .cons hfirst hrest, ?_⟩
          rw [List.map_cons, hsameFirst, hsameRest, List.map_cons]

/-- Rearranged statements are collected to the same module up to spans. -/
theorem Collects.rearrange (h : Collects workspace statements module)
    (hstatements : ∀ statement ∈ statements, IsStatement workspace statement)
    {others : List (List Token)} (hothers : Rearranges statements others) {body : Expr}
    (hbody : body.spanless = module.body.spanless) :
    ∃ found : Module, Collects workspace others found ∧ found.body = body ∧
      found.spanless = module.spanless := by
  obtain ⟨imports, himports, hsameImports⟩ :=
    forall₂_alike IsImport.alike h.imports (hothers.kept .imported nofun)
  obtain ⟨uses, huses, hsameUses⟩ := forall₂_alike IsUse.alike h.uses (hothers.kept .used nofun)
  obtain ⟨classes, hclasses, hsameClasses⟩ :=
    forall₂_alike IsClass.alike h.classes (hothers.kept .declared nofun)
  refine ⟨⟨imports, uses, classes, body⟩, ⟨himports, huses, hclasses, ?_⟩, rfl, ?_⟩
  · intro other hother hsort
    obtain ⟨statement, hstatement, halike⟩ := hothers.loose other hother hsort
    exact (hstatements statement hstatement).alike halike
  · simp only [Module.spanless, hsameImports, hsameUses, hsameClasses, hbody]

end

end ConfigNotation.Grammar

namespace ConfigNotation

open Grammar

/-- Complete statements in front of an export are accepted in every arrangement
that keeps the order of each sort, and form the same module up to spans. -/
theorem ofTokens_rearranged {workspace : Workspace} {statements others : List (List Token)}
    {last otherLast tokens otherTokens : List Token} {body : Expr}
    (hstatements : ∀ statement ∈ statements, IsStatement workspace statement)
    (hlast : IsExport workspace last body) (hothers : Rearranges statements others)
    (hotherLast : Alike last otherLast) (htokens : beforeEnd tokens = statements.flatten ++ last)
    (hotherTokens : beforeEnd otherTokens = others.flatten ++ otherLast) :
    ∃ module other, Module.ofTokens workspace tokens = .ok module ∧
      Module.ofTokens workspace otherTokens = .ok other ∧ other.spanless = module.spanless := by
  obtain ⟨module, hmodule, rfl⟩ := exists_collects hstatements body
  obtain ⟨otherBody, hexport, hbody⟩ := hlast.alike hotherLast
  obtain ⟨other, hother, rfl, hsame⟩ := hmodule.rearrange hstatements hothers hbody
  refine ⟨module, other, Module.ofTokens_eq_ok_iff.2 ?_, Module.ofTokens_eq_ok_iff.2 ?_, hsame⟩
  · rw [htokens]
    exact hmodule.isModule hlast
  · rw [hotherTokens]
    exact hother.isModule hexport

end ConfigNotation
