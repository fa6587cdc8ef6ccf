import ConfigNotation.Proofs.Token.Spelling
import ConfigNotation.Proofs.Token.Strings
import ConfigNotation.Source.Quoted
import ConfigNotation.Syntax.Literal
import ConfigNotation.Text.Template

/-!
String literals that are written for a text. They are tokens for strings, whatever the
text holds, and evaluating their body gives the text back.
-/

namespace ConfigNotation

open Text Pattern

namespace Source

inductive Escaped : Char → Char → Prop where
  | backslash : Escaped '\\' '\\'
  | quote : Escaped '"' '"'
  | opening : Escaped '[' '['
  | closing : Escaped ']' ']'
  | backspace : Escaped '\x08' 'b'
  | formFeed : Escaped '\x0c' 'f'
  | lineFeed : Escaped '\n' 'n'
  | carriageReturn : Escaped '\r' 'r'
  | tab : Escaped '\t' 't'
  | verticalTab : Escaped '\x0b' 'v'

/-- A character is escaped, or it means nothing but itself in a string. -/
theorem quotedChar_cases (c : Char) :
    (∃ letter, Escaped c letter ∧ quotedChar c = ['\\', letter]) ∨
      quotedChar c = [c] ∧ IsPlain c ∧ c ≠ '[' ∧ c ≠ '\r' := by
  unfold quotedChar
  split
  · exact .inl ⟨_, .backslash, rfl⟩
  · exact .inl ⟨_, .quote, rfl⟩
  · exact .inl ⟨_, .opening, rfl⟩
  · exact .inl ⟨_, .closing, rfl⟩
  · exact .inl ⟨_, .backspace, rfl⟩
  · exact .inl ⟨_, .formFeed, rfl⟩
  · exact .inl ⟨_, .lineFeed, rfl⟩
  · exact .inl ⟨_, .carriageReturn, rfl⟩
  · exact .inl ⟨_, .tab, rfl⟩
  · exact .inl ⟨_, .verticalTab, rfl⟩
  · next hbackslash hquote hopening _ _ _ _ hreturn _ _ =>
    exact .inr ⟨rfl, ⟨hquote, hbackslash⟩, hopening, hreturn⟩

theorem Escaped.isLineBreak {c letter : Char} (h : Escaped c letter) :
    isLineBreak letter = false := by
  cases h <;> rfl

theorem Escaped.meaning? {c letter : Char} (h : Escaped c letter) :
    Template.meaning? letter = some c := by
  cases h <;> rfl

theorem body_cons (c : Char) (rest : List Char) : body (c :: rest) = quotedChar c ++ body rest :=
  List.flatMap_cons

theorem staysOpen_body (text : List Char) : StaysOpen (body text) := by
  induction text with
  | nil => exact .nil
  | cons c rest ih =>
      rw [body_cons]
      rcases quotedChar_cases c with ⟨letter, hescaped, heq⟩ | ⟨heq, hplain, _⟩
      · rw [heq]
        exact .pair hescaped.isLineBreak ih
      · rw [heq]
        exact .plain hplain ih

theorem not_mem_body (text : List Char) : '\r' ∉ body text := by
  induction text with
  | nil => simp [body]
  | cons c rest ih =>
      rw [body_cons, List.mem_append, not_or]
      refine ⟨?_, ih⟩
      rcases quotedChar_cases c with ⟨letter, hescaped, heq⟩ | ⟨heq, _, _, hreturn⟩
      · have hbreak := hescaped.isLineBreak
        rw [heq]
        simp only [List.mem_cons, List.not_mem_nil, or_false, not_or]
        refine ⟨by decide, ?_⟩
        rintro rfl
        exact absurd hbreak (by decide)
      · simpa [heq] using Ne.symm hreturn

/-- The body of a literal for a text has no placeholders and stands for the
text. -/
theorem fill_body (text : List Char) (lookup : String → Option String) :
    (Template.piecesOf (body text)).flatMap (·.fill lookup) = text := by
  induction text with
  | nil => simp [body, Template.piecesOf]
  | cons c rest ih =>
      rw [body_cons]
      rcases quotedChar_cases c with ⟨letter, hescaped, heq⟩ | ⟨heq, hplain, hopening, _⟩
      · rw [heq, List.cons_append, List.cons_append, List.nil_append, Template.piecesOf.eq_def]
        simp only [if_true, hescaped.meaning?, List.flatMap_cons, ih]
        rfl
      · rw [heq, List.cons_append, List.nil_append, Template.piecesOf.eq_def]
        simp only [if_neg hplain.2, if_neg hopening, List.flatMap_cons, ih]
        rfl

theorem quoted_toList (text : String) :
    (quoted text).toList = '"' :: (body text.toList ++ ['"']) := by
  simp [quoted]

end Source

theorem Text.unquoted_quotes (body : List Char) : unquoted ('"' :: (body ++ ['"'])) = body := by
  simp [unquoted, dropLeading, dropTrailing]

namespace Pattern

theorem StaysOpen.blankFrom {text : List Char} (h : StaysOpen text) (previous : Option Char)
    (offset : Nat) :
    Text.blankFrom (.string false) previous offset text = (text, .string false) := by
  induction h generalizing previous offset with
  | nil => rfl
  | plain hplain _ ih =>
      rw [blankFrom_cons]
      simp [CommentMode.step, hplain.1, hplain.2, ih]
  | pair _ _ ih =>
      rw [blankFrom_cons, blankFrom_cons]
      simp [CommentMode.step, ih]

theorem isVerbatim_quotes {body : List Char} (hbody : StaysOpen body) (hreturn : '\r' ∉ body) :
    IsVerbatim ('"' :: (body ++ ['"'])) where
  noReturn := by simp [hreturn]
  blanked previous offset := by
    rw [blankFrom_cons, blankFrom_append]
    simp [CommentMode.step, hbody.blankFrom, blankFrom]

/-- A date or a file ends before the string that starts with it. -/
theorem ending_lt {body rest : List Char} {quoted size : Nat} (hstops : Stops rest)
    (hquoted : plainQuoted? ('"' :: (body ++ '"' :: rest)) = some quoted)
    (hpoint : (('"' :: (body ++ '"' :: rest)).drop quoted).head? = some '.')
    (hending : PlainUpTo (('"' :: (body ++ '"' :: rest)).drop quoted) size) :
    quoted + size < body.length + 2 := by
  obtain ⟨inner, hinside, hinner⟩ := plainQuoted?_spec hquoted
  have hclosing : ('"' :: (body ++ '"' :: rest))[body.length + 1]? = some '"' := by simp
  rcases Nat.lt_trichotomy quoted (body.length + 2) with hshort | hexact | hlong
  · by_contra hnot
    have hmember : '"' ∈ (('"' :: (body ++ '"' :: rest)).drop quoted).take size := by
      refine List.mem_of_getElem? (i := body.length + 1 - quoted) ?_
      rw [List.getElem?_take_of_lt (by omega), List.getElem?_drop,
        Nat.add_sub_cancel' (by omega), hclosing]
    exact (hending _ hmember).1 rfl
  · have hdrop : ('"' :: (body ++ '"' :: rest)).drop quoted = rest := by
      simp [hexact]
    rw [hdrop] at hpoint
    exact absurd rfl (hstops '.' hpoint).2
  · have hbound : quoted < ('"' :: (body ++ '"' :: rest)).length := by
      by_contra hnot
      rw [List.drop_eq_nil_of_le (by omega)] at hpoint
      cases hpoint
    have hlength : inner.length + 2 = quoted := by
      have htake := congrArg List.length hinside
      rw [List.length_take_of_le (by omega)] at htake
      simp only [List.length_cons, List.length_append, List.length_nil] at htake
      omega
    have happend : (inner ++ ['"'])[body.length]? = inner[body.length]? :=
      List.getElem?_append_left (by omega)
    have hmember : inner[body.length]? = some '"' := by
      rw [← happend, ← List.getElem?_cons_succ (a := '"'), ← hinside,
        List.getElem?_take_of_lt (by omega), hclosing]
    exact absurd rfl (hinner _ (List.mem_of_getElem? hmember)).1

variable {body rest : List Char}

theorem StaysOpen.string? (hbody : StaysOpen body) :
    string? ('"' :: (body ++ '"' :: rest)) = some (body.length + 2) := by
  rw [Pattern.string?, hbody.stringRest?]
  simp only [Pattern.stringRest?, Option.map_some, Option.some.injEq]
  omega

/-- No date and no file covers a string. -/
theorem shape_quoted_lt {kind : TokenKind} {size : Nat} (hstops : Stops rest)
    (h : Shape ('"' :: (body ++ '"' :: rest)) kind size)
    (hkind : kind = .date ∨ kind = .file) :
    size < body.length + 2 := by
  cases h with
  | ending _ hquoted hending hpoint => exact ending_lt hstops hquoted hpoint hending
  | string => rcases hkind with hkind | hkind <;> cases hkind
  | regExp => rcases hkind with hkind | hkind <;> cases hkind
  | plain hother =>
      rcases hkind with rfl | rfl <;> exact absurd (by decide) hother

/-- A body that stays open until its quote is a string. -/
theorem StaysOpen.isLexeme (hbody : StaysOpen body) (hreturn : '\r' ∉ body) :
    IsLexeme Apart .string ('"' :: (body ++ ['"'])) where
  starts := ⟨'"', _, rfl, by decide⟩
  verbatim := isVerbatim_quotes hbody hreturn
  longest previous rest hfits := by
    have hspelled : '"' :: (body ++ ['"']) ++ rest = '"' :: (body ++ '"' :: rest) := by simp
    have hlength : ('"' :: (body ++ ['"'])).length = body.length + 2 := by simp
    have hlongest (tail : List Char) : longestMatch previous ('"' :: tail) =
        ([(⟨.date, fun _ => date?⟩ : Pattern), ⟨.file, fun _ => file?⟩] ++
          [(⟨.string, fun _ => Pattern.string?⟩ : Pattern)]).foldl
            (prefer previous ('"' :: tail)) none := by
      rw [longestMatch, all_eq]
      rfl
    rw [hspelled, hlength, hlongest]
    refine foldl_prefer_last _ ?_ (by omega) hbody.string?
    intro other hother size hsize
    simp only [List.mem_cons, List.not_mem_nil, or_false] at hother
    rcases hother with rfl | rfl
    · exact shape_quoted_lt hfits.2 (shape_of_date hsize) (.inl rfl)
    · exact shape_quoted_lt hfits.2 (shape_of_file hsize) (.inr rfl)

end Pattern

namespace Source

/-- The literal for a text is a string. -/
theorem isLexeme_quoted (text : String) : IsLexeme Apart .string (quoted text).toList := by
  rw [quoted_toList]
  exact (staysOpen_body _).isLexeme (not_mem_body _)

end Source

end ConfigNotation
