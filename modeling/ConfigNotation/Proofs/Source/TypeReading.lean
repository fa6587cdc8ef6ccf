import ConfigNotation.Proofs.Source.TypeText
import ConfigNotation.Proofs.Syntax.Alike
import ConfigNotation.Proofs.Syntax.AliasEnd
import ConfigNotation.Proofs.Syntax.Modules

/-!
What the text of a type is read as. Its words, as tokens that stand nowhere, form the type
without its spans, and tokens that are alike form the same type up to spans.
-/

namespace ConfigNotation

open Grammar Pattern Word
open ConfigNotation.Parser
open Text (lastOr)

/-- A word as a token that stands nowhere. -/
def Word.token (word : Word) : Token := ⟨word.kind, String.ofList word.text, .empty, .start⟩

theorem map_tag_token (words : List Word) :
    (words.map Word.token).map Token.tag = words.map Word.tag := by
  rw [List.map_map]
  rfl

theorem span_of_mem_words {words : List Word} :
    ∀ token ∈ words.map Word.token, token.span = .empty := by
  intro token htoken
  obtain ⟨word, _, rfl⟩ := List.mem_map.1 htoken
  rfl

/-- Words that stand nowhere have an empty span. -/
theorem spanOf_words (words : List Word) : spanOf (words.map Word.token) = .empty := by
  have hempty {found : Option Token}
      (hfound : ∀ token ∈ found, token ∈ words.map Word.token) :
      (found.getD .missing).span = .empty := by
    cases found with
    | none => rfl
    | some token => exact span_of_mem_words token (hfound token rfl)
  rw [spanOf, hempty fun _ => List.mem_of_mem_head?, hempty fun _ => List.mem_of_mem_getLast?]
  rfl

/-- Words that are spelled are no end of the input. -/
theorem Spelled.kind_ne_endOfInput {verbatim : Prop} {previous : Option Char} {words : List Word}
    (h : Spelled verbatim previous words) : ∀ word ∈ words, word.kind ≠ .endOfInput := by
  induction h with
  | nil => exact nofun
  | token _ htoken _ hfits _ ih =>
      have hmatch := longestMatch_eq_some_iff.1 (htoken.longest _ _ hfits)
      exact List.forall_mem_cons.2 ⟨ConfigNotation.kind_ne_endOfInput hmatch, ih⟩

/-- What is read of tokens that are cut as words are spelled is alike to these
words. -/
theorem Spelled.alike_beforeEnd {verbatim : Prop} {previous : Option Char} {words : List Word}
    (h : Spelled verbatim previous words) {tokens : List Token}
    (htags : tokens.map Token.tag = words.map Word.tag ++ [(.endOfInput, "")]) :
    Alike (words.map Word.token) (beforeEnd tokens) := by
  obtain ⟨taken, last, rfl, htaken, hlast⟩ := List.map_eq_append_iff.1 htags
  obtain ⟨ending, rfl, hending⟩ := List.map_eq_singleton_iff.1 hlast
  have hkinds : ∀ token ∈ taken, decide (token.kind ≠ .endOfInput) = true := by
    intro token htoken
    have hmember : token.tag ∈ words.map Word.tag := htaken ▸ List.mem_map_of_mem htoken
    obtain ⟨word, hword, hsame⟩ := List.mem_map.1 hmember
    have hkind : word.kind = token.kind := congrArg Prod.fst hsame
    exact decide_eq_true (hkind ▸ h.kind_ne_endOfInput word hword)
  have hstop : beforeEnd (taken ++ [ending]) = taken := by
    have hkind : ending.kind = .endOfInput := congrArg Prod.fst hending
    rw [beforeEnd, List.takeWhile_append_of_pos hkinds]
    simp [hkind]
  rw [hstop, Alike, map_tag_token]
  exact htaken

theorem keyName_token (gap name : List Char) :
    keyName (Word.token ⟨gap, .assocKey, '@' :: name⟩) = String.ofList name := by
  simp [keyName, Word.token, Text.dropLeading]

namespace TypeExpr

open Source (bracketedWords)

theorem map_token_bracketedWords (gap : List Char) (entries : List Word) (closing : List Char) :
    (bracketedWords gap entries closing).map Word.token =
      Word.token ⟨gap, .leftBracket, ['[']⟩ ::
        (entries.map Word.token ++ [Word.token ⟨closing, .rightBracket, [']']⟩]) := by
  simp [bracketedWords]

theorem fieldWords_cons (field : Field TypeExpr) (rest : List (Field TypeExpr)) :
    fieldWords (field :: rest) = fieldWords [field] ++ fieldWords rest := by
  obtain ⟨name, type, optional, default, span⟩ := field
  simp [fieldWords]

section

variable {workspace : Workspace}

/-- The words of a field without default form it, if those of its type do. -/
theorem isField_words (inObjectType : Bool) {field : Field TypeExpr}
    (h : IsType workspace ((words [' '] field.type).map Word.token) field.type.spanless)
    (hdefault : field.default = none) :
    IsField workspace inObjectType ((fieldWords [field]).map Word.token) field.spanless := by
  obtain ⟨name, type, optional, default, span⟩ := field
  cases hdefault
  have hmark : Optional .question
      ((if optional then [⟨[], .question, ['?']⟩] else []).map Word.token) optional := by
    cases optional with
    | false => exact .missing
    | true => exact .present rfl
  let key := Word.token ⟨[' '], .assocKey, '@' :: name.toList⟩
  let colon := Word.token ⟨[], .colon, [':']⟩
  let semicolon := Word.token ⟨[], .semicolon, [';']⟩
  have hcolon : colon.kind = .colon := rfl
  have hform : IsField workspace inObjectType _ _ :=
    .intro (rfl : key.kind = .assocKey) hmark (.present hcolon h) .missing
      (rfl : semicolon.kind = .semicolon)
  have htokens : key :: ((if optional then [⟨[], .question, ['?']⟩] else []).map Word.token ++
      (colon :: (words [' '] type).map Word.token ++ ([] ++ [semicolon]))) =
      (fieldWords [⟨name, type, optional, none, span⟩]).map Word.token := by
    simp [fieldWords, key, colon, semicolon]
  rw [htokens, spanOf_words, keyName_token, String.ofList_toList] at hform
  exact hform

mutual

/-- The words of a type form it. -/
theorem isType_words {type : TypeExpr} (h : type.Legible) (hdefaults : type.hasDefault = false)
    (gap : List Char) : IsType workspace ((words gap type).map Word.token) type.spanless := by
  cases type with
  | reference name =>
      have hform : IsType workspace [Word.token ⟨gap, .ident, name.toList⟩] _ := .name rfl
      simpa [words, spanless, Word.token] using hform
  | literal body =>
      have hform : IsType workspace [Word.token ⟨gap, .string, '"' :: (body.toList ++ ['"'])⟩] _ :=
        .text rfl
      simpa [words, spanless, Word.token, Text.unquoted_quotes] using hform
  | array => exact .array rfl rfl
  | arrayOf element =>
      have hinner := isType_words (h.parts element List.mem_cons_self) hdefaults []
      rw [words, map_token_bracketedWords]
      exact .arrayOf rfl hinner rfl
  | tuple elements =>
      have hinner : AreElements workspace ((elementWords [] elements).map Word.token)
          (!elements.isEmpty) (elements.map .spanless) :=
        areElements_words h.parts hdefaults []
      have hsome : elements.isEmpty = false := List.isEmpty_eq_false_iff.2 h.own
      rw [words, map_token_bracketedWords, spanless_tuple]
      rw [hsome] at hinner
      exact .tuple rfl hinner rfl
  | object fields =>
      have hinner : AreFields workspace true ((fieldWords fields).map Word.token)
          (fields.map .spanless) :=
        areFields_words true (fun field hfield => h.parts _ (List.mem_map_of_mem hfield))
          hdefaults
      rw [words, map_token_bracketedWords, spanless_object]
      exact .object rfl hinner (by simpa using h.own.1) rfl

/-- The words of the elements of a tuple derive the elements, each by the words
between two marks. -/
theorem areElements_words {elements : List TypeExpr} (h : ∀ element ∈ elements, element.Legible)
    (hdefaults : elementsHaveDefault elements = false) (gap : List Char) :
    AreElements workspace ((elementWords gap elements).map Word.token) (!elements.isEmpty)
      (elements.map .spanless) := by
  cases elements with
  | nil => exact .nil
  | cons element rest =>
      rw [List.forall_mem_cons] at h
      rw [elementsHaveDefault, Bool.or_eq_false_iff] at hdefaults
      have hfirst := isType_words h.1 hdefaults.1 gap
      have hrest := areElements_words h.2 hdefaults.2 [' ']
      rw [elementWords, List.map_append, List.map_cons, List.map_cons]
      exact .cons hfirst rfl hrest

/-- The words of fields derive the fields. Defaults are left out of the text, so
types with defaults inside are excluded. -/
theorem areFields_words (inObjectType : Bool) {fields : List (Field TypeExpr)}
    (h : ∀ field ∈ fields, field.type.Legible)
    (hdefaults : fieldsHaveDefault fields = false) :
    AreFields workspace inObjectType ((fieldWords fields).map Word.token)
      (fields.map .spanless) := by
  cases fields with
  | nil => exact .nil
  | cons field rest =>
      rw [List.forall_mem_cons] at h
      rw [fieldsHaveDefault, Bool.or_eq_false_iff, Bool.or_eq_false_iff] at hdefaults
      obtain ⟨hnone, htype, hothers⟩ := hdefaults
      have hdefault : field.default = none := by simpa using hnone
      have hfirst := isField_words inObjectType (isType_words h.1 htype [' ']) hdefault
      have hrest := areFields_words inObjectType h.2 hothers
      rw [fieldWords_cons, List.map_append, List.map_cons]
      exact .cons hfirst hrest

end

end

/-- A text with a class whose only field has a type. -/
def annotated (type : TypeExpr) (key : String) (optional : Bool) : String :=
  "class Annotated [ @" ++ key ++ (if optional then "?" else "") ++ ": " ++ type.text ++
    "; ]; export True;"

def annotatedModule (type : TypeExpr) (key : String) (optional : Bool) : Module where
  imports := []
  uses := []
  classes := [⟨"Annotated", [], none, [], [⟨key, type, optional, none, .empty⟩], .empty⟩]
  body := .literal .empty (.boolean true)

def annotatedClassWords (type : TypeExpr) (key : String) (optional : Bool) : List Word :=
  ⟨[], .classWord, ['c', 'l', 'a', 's', 's']⟩ ::
    ⟨[' '], .ident, ['A', 'n', 'n', 'o', 't', 'a', 't', 'e', 'd']⟩ ::
    (bracketedWords [' '] (fieldWords [⟨key, type, optional, none, .empty⟩]) [' '] ++
      [⟨[], .semicolon, [';']⟩])

open Source (exportWords)

def annotatedWords (type : TypeExpr) (key : String) (optional : Bool) : List Word :=
  annotatedClassWords type key optional ++ exportWords 0 [' '] (.boolean true)

theorem spell_annotatedWords (type : TypeExpr) (key : String) (optional : Bool) :
    spell (annotatedWords type key optional) = (annotated type key optional).toList := by
  have hfield := spell_fieldWords [⟨key, type, optional, none, .empty⟩]
  unfold annotated
  simp [annotatedWords, annotatedClassWords, exportWords, Source.valueWords, Source.leafText,
    bracketedWords, hfield, fieldsText]

theorem isLexeme_annotated :
    IsLexeme Apart .ident ['A', 'n', 'n', 'o', 't', 'a', 't', 'e', 'd'] := by
  apply isLexeme_name rfl
  intro previous rest
  rw [longestMatch, all_eq]
  rfl

/-- The words of a class with one field of a type are cut off again, if the type
is legible. -/
theorem spelled_annotatedWords {key : String} (hkey : isIdentifier key.toList = true)
    (optional : Bool) {type : TypeExpr} (h : type.Legible) :
    Spelled True none (annotatedWords type key optional) := by
  have hexport (previous : Option Char) :
      Spelled True previous (exportWords 0 [' '] (.boolean true)) := by
    have hlegible : (Value.boolean true).Keyed (Value.IsLegible True) := by
      simp [Value.Keyed, Value.IsLegible]
    refine Source.spelled_exportWords hlegible 0 (by simp) ?_
    rintro c ⟨⟩
    decide
  have hend := Source.spelled_semicolon hexport
  have hclosing (previous : Option Char) : Spelled True previous (⟨[' '], .rightBracket, [']']⟩ ::
      ⟨[], .semicolon, [';']⟩ :: exportWords 0 [' '] (.boolean true)) :=
    Source.spelled_closing (by simp) hend previous
  have hfield : ∀ field ∈ ([⟨key, type, optional, none, .empty⟩] : List (Field TypeExpr)),
      isIdentifier field.name.toList = true ∧ field.type.Legible :=
    List.forall_mem_singleton.2 ⟨hkey, h⟩
  have hfields (previous : Option Char) := spelled_fieldWords hfield hclosing previous
  have hspace : ∀ c ∈ [' '], c = ' ' ∨ c = '\n' := by simp
  have hbody (previous : Option Char) :=
    Source.spelled_bracketedWords hspace (hfields (some '[')) previous
  rw [annotatedWords, annotatedClassWords]
  refine .cons (by simp) (isLexeme_of_mem (by decide)) ⟨by decide, stops_cons _ (by decide)⟩ ?_
  refine .cons (by simp) isLexeme_annotated ⟨by decide, stops_cons _ (by decide)⟩ ?_
  simpa using hbody _

section

variable {workspace : Workspace}

theorem isClass_words (key : String) (optional : Bool) {type : TypeExpr} (h : type.Legible)
    (hdefaults : type.hasDefault = false) :
    IsClass workspace ((annotatedClassWords type key optional).map Word.token)
      ⟨"Annotated", [], none, [], [⟨key, type.spanless, optional, none, .empty⟩], .empty⟩ := by
  have hfields : AreFields workspace false
      ((fieldWords [⟨key, type, optional, none, .empty⟩]).map Word.token)
      [⟨key, type.spanless, optional, none, .empty⟩] :=
    areFields_words false (List.forall_mem_singleton.2 h) (by simp [fieldsHaveDefault, hdefaults])
  let mark := Word.token ⟨[], .classWord, ['c', 'l', 'a', 's', 's']⟩
  let name := Word.token ⟨[' '], .ident, ['A', 'n', 'n', 'o', 't', 'a', 't', 'e', 'd']⟩
  let opening := Word.token ⟨[' '], .leftBracket, ['[']⟩
  let closing := Word.token ⟨[' '], .rightBracket, [']']⟩
  let semicolon := Word.token ⟨[], .semicolon, [';']⟩
  have hform : IsClass workspace _ _ :=
    .intro (rfl : mark.kind = .classWord) (rfl : name.kind = .ident) .missing .missing .missing
      (rfl : opening.kind = .leftBracket) hfields (rfl : closing.kind = .rightBracket)
      (rfl : semicolon.kind = .semicolon)
  have htokens : mark :: name :: ([] ++ ([] ++ ([] ++ opening ::
      ((fieldWords [⟨key, type, optional, none, .empty⟩]).map Word.token ++
        [closing, semicolon])))) =
      (annotatedClassWords type key optional).map Word.token := by
    simp [annotatedClassWords, bracketedWords, mark, name, opening, closing, semicolon]
  rw [htokens, spanOf_words] at hform
  exact hform

/-- The words derive the module with that class, and nothing in it depends on
files. -/
theorem isModule_words (key : String) (optional : Bool) {type : TypeExpr} (h : type.Legible)
    (hdefaults : type.hasDefault = false) :
    IsModule .required workspace ((annotatedWords type key optional).map Word.token)
      (annotatedModule type.spanless key optional) := by
  have hliteral : IsExpr workspace [Word.token ⟨[' '], .boolean, ['T', 'r', 'u', 'e']⟩]
      (.literal .empty (.boolean true)) :=
    .operand (.literal (.plain rfl nofun rfl))
  have hexport : IsModule .required workspace
      ((exportWords 0 [' '] (.boolean true)).map Word.token)
      ⟨[], [], [], .literal .empty (.boolean true)⟩ := .exported rfl hliteral rfl
  rw [annotatedWords, List.map_append]
  exact .declared (isClass_words key optional h hdefaults) hexport

end

end TypeExpr

/-- The text of a type that is read from a module, whatever it is built of, is a
type again if no field of an object type in it has a default: as the annotation
of a field it is read, in every workspace, as the same type up to spans. -/
theorem type_text_reads_back {workspace : Workspace} {source : String} {lexed : Lexed}
    {module : Module} (hlex : lex source = .ok lexed)
    (hmodule : Module.ofTokens workspace lexed.tokens = .ok module) {decl : ClassDecl}
    (hdecl : decl ∈ module.classes) {field : Field TypeExpr} (hfield : field ∈ decl.fields)
    {type : TypeExpr} (htype : field.type.Contains type) (hdefaults : type.hasDefault = false)
    {key : String} (hkey : isIdentifier key.toList = true) (optional : Bool) :
    ∃ relexed, lex (type.annotated key optional) = .ok relexed ∧ ∀ other : Workspace,
      ∃ reread, Module.ofTokens other relexed.tokens = .ok reread ∧
        reread.spanless = (type.annotatedModule key optional).spanless := by
  have hlegible : type.Legible := fun part hpart =>
    Module.types_legible hlex hmodule decl hdecl field hfield part (htype.trans hpart)
  have hspelled := TypeExpr.spelled_annotatedWords hkey optional hlegible
  obtain ⟨relexed, hrelex, htags⟩ := hspelled.lex
  rw [TypeExpr.spell_annotatedWords, String.ofList_toList] at hrelex
  refine ⟨relexed, hrelex, fun other => ?_⟩
  have hform : IsModule .required other _ _ :=
    TypeExpr.isModule_words key optional hlegible hdefaults
  obtain ⟨reread, hreread, hsame⟩ := hform.alike (hspelled.alike_beforeEnd htags)
  refine ⟨reread, Module.ofTokens_eq_ok_iff.2 hreread, ?_⟩
  rw [hsame]
  simp [Module.spanless, TypeExpr.annotatedModule, ClassDecl.spanless, Field.spanless,
    TypeExpr.spanless_spanless]

/-- The texts of the types in a source, and whether a field in them has a
default. -/
def typeTexts? (source : String) : Option (List (String × Bool)) :=
  (lex source).toOption.bind fun lexed =>
    (Module.ofTokens noFiles lexed.tokens).toOption.map fun module =>
      module.classes.flatMap fun decl => decl.fields.map fun field =>
        (field.type.text, field.type.hasDefault)

/-- A source with a nested type, which is not spelled as its text is. -/
def nestedTypeSource : String :=
  "class A [ @a: [@b?:[[Text]]; @c: [\"x]\"; []]; @d;]; ]; export Null;"

theorem type_text_reads_back_nested :
    ∃ lexed module, lex nestedTypeSource = .ok lexed ∧
      Module.ofTokens noFiles lexed.tokens = .ok module ∧
      ∃ decl ∈ module.classes, ∃ field ∈ decl.fields,
        field.type.text = "[ @b?: [[Text]]; @c: [\"x]\"; [];]; @d: Any; ]" ∧
        ∃ relexed, lex (field.type.annotated "key" true) = .ok relexed ∧ ∀ other : Workspace,
          ∃ reread, Module.ofTokens other relexed.tokens = .ok reread ∧
            reread.spanless = (field.type.annotatedModule "key" true).spanless := by
  have htexts : typeTexts? nestedTypeSource =
      some [("[ @b?: [[Text]]; @c: [\"x]\"; [];]; @d: Any; ]", false)] := by decide +kernel
  simp only [typeTexts?, Option.bind_eq_some_iff, Option.map_eq_some_iff] at htexts
  obtain ⟨lexed, hlex, module, hmodule, htypes⟩ := htexts
  replace hlex := eq_ok_of_toOption hlex
  replace hmodule := eq_ok_of_toOption hmodule
  have hlisted := List.mem_singleton_self ("[ @b?: [[Text]]; @c: [\"x]\"; [];]; @d: Any; ]", false)
  rw [← htypes, List.mem_flatMap] at hlisted
  obtain ⟨decl, hdecl, hlisted⟩ := hlisted
  obtain ⟨field, hfield, htext⟩ := List.mem_map.1 hlisted
  obtain ⟨htext, hdefault⟩ := Prod.mk.inj htext
  exact ⟨lexed, module, hlex, hmodule, decl, hdecl, field, hfield, htext,
    type_text_reads_back hlex hmodule hdecl hfield .refl hdefault (by decide) true⟩

end ConfigNotation
