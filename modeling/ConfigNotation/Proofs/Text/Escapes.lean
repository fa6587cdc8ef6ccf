import ConfigNotation.Text.Template
import Mathlib.Tactic.SplitIfs

/-!
Templates without placeholders. Such a template stands for its own text exactly if no
escape stands in it: each escape makes the text shorter, and what is no escape stays.
-/

namespace ConfigNotation.Template

/-- A backslash stands somewhere in a text with a character that means something
behind it. -/
def HasEscape (text : List Char) : Prop :=
  ∃ c meaning, meaning? c = some meaning ∧ ['\\', c] <:+: text

def pathOf? : TemplatePiece → Option String
  | .placeholder value => some value.path
  | _ => none

theorem paths_eq (template : Template) : template.paths = template.pieces.filterMap pathOf? := by
  unfold paths
  congr 1

theorem not_hasEscape_nil : ¬HasEscape [] := by
  rintro ⟨c, meaning, -, hinfix⟩
  cases List.infix_nil.1 hinfix

theorem HasEscape.cons {text : List Char} (h : HasEscape text) (c : Char) :
    HasEscape (c :: text) := by
  obtain ⟨d, meaning, hmeaning, hinfix⟩ := h
  exact ⟨d, meaning, hmeaning, List.infix_cons hinfix⟩

theorem hasEscape_pair {c meaning : Char} (hmeaning : meaning? c = some meaning)
    (rest : List Char) : HasEscape ('\\' :: c :: rest) :=
  ⟨c, meaning, hmeaning, [], rest, rfl⟩

/-- An escape starts at the first character, or it stands in what follows. -/
theorem HasEscape.uncons {c : Char} {rest : List Char} (h : HasEscape (c :: rest)) :
    (c = '\\' ∧ ∃ d meaning, rest.head? = some d ∧ meaning? d = some meaning) ∨
      HasEscape rest := by
  obtain ⟨d, meaning, hmeaning, hinfix⟩ := h
  rcases List.infix_cons_iff.1 hinfix with hstart | hlater
  · obtain ⟨hsame, hrest⟩ := List.cons_prefix_cons.1 hstart
    obtain ⟨after, rfl⟩ := hrest
    exact .inl ⟨hsame.symm, d, meaning, rfl, hmeaning⟩
  · exact .inr ⟨d, meaning, hmeaning, hlater⟩

theorem hasEscape_cons_iff {c : Char} {rest : List Char}
    (hstart : c = '\\' → ∀ d, rest.head? = some d → meaning? d = none) :
    HasEscape (c :: rest) ↔ HasEscape rest := by
  constructor
  · intro h
    rcases h.uncons with ⟨hbackslash, d, meaning, hhead, hmeaning⟩ | hlater
    · rw [hstart hbackslash d hhead] at hmeaning
      cases hmeaning
    · exact hlater
  · intro h
    exact h.cons c

/-- A text starts with an escape, with a placeholder, or with a plain
character. -/
inductive StartsWith : List Char → TemplatePiece → List Char → Prop where
  | escape {c meaning : Char} (hmeaning : meaning? c = some meaning) (rest : List Char) :
      StartsWith ('\\' :: c :: rest) (.escape c meaning) rest
  | placeholder {text : List Char} {value : Placeholder}
      (hscan : Placeholder.scan? text = some value) :
      StartsWith ('[' :: text) (.placeholder value) (text.drop (value.written.length - 1))
  | plain {c : Char} {rest : List Char}
      (hstart : c = '\\' → ∀ d, rest.head? = some d → meaning? d = none) :
      StartsWith (c :: rest) (.plain c) rest

theorem piecesOf_cons (c : Char) (text : List Char) :
    ∃ piece rest, StartsWith (c :: text) piece rest ∧
      piecesOf (c :: text) = piece :: piecesOf rest := by
  rw [piecesOf.eq_def]
  split
  case h_1 hnil => cases hnil
  case h_2 first rest hcons =>
    cases hcons
    split_ifs with hbackslash hbracket
    · subst hbackslash
      cases text with
      | nil => exact ⟨_, [], .plain (fun _ d hd => by cases hd), by simp [piecesOf]⟩
      | cons d after =>
          cases hmeaning : meaning? d with
          | some meaning => exact ⟨_, after, .escape hmeaning after, by simp [hmeaning]⟩
          | none =>
              refine ⟨_, d :: after, .plain ?_, by simp [hmeaning]⟩
              rintro - _ ⟨⟩
              exact hmeaning
    · subst hbracket
      cases hscan : Placeholder.scan? text with
      | some value => exact ⟨_, _, .placeholder hscan, rfl⟩
      | none => exact ⟨_, text, .plain (absurd · hbackslash), rfl⟩
    · exact ⟨_, text, .plain (absurd · hbackslash), rfl⟩

/-- What a text without placeholders stands for: the text itself if no escape
stands in it, and a shorter one otherwise. -/
theorem fill_cases (lookup : String → Option String) (text : List Char)
    (hplain : (piecesOf text).filterMap pathOf? = []) :
    (¬HasEscape text ∧ (piecesOf text).flatMap (·.fill lookup) = text) ∨
      (HasEscape text ∧ ((piecesOf text).flatMap (·.fill lookup)).length < text.length) := by
  induction hlength : text.length using Nat.strongRecOn generalizing text with
  | ind length ih =>
    subst hlength
    cases text with
    | nil => exact .inl ⟨not_hasEscape_nil, by simp [piecesOf]⟩
    | cons c text =>
        obtain ⟨piece, rest, hstarts, hpieces⟩ := piecesOf_cons c text
        rw [hpieces] at hplain ⊢
        rw [List.flatMap_cons, List.length_cons]
        cases hstarts with
        | escape hmeaning rest =>
            refine .inr ⟨hasEscape_pair hmeaning rest, ?_⟩
            simp only [List.length_cons] at ih ⊢
            rw [TemplatePiece.fill, List.singleton_append, List.length_cons]
            rcases ih rest.length (by omega) rest hplain rfl with ⟨-, hsame⟩ | ⟨-, hshorter⟩
            · rw [hsame]
              omega
            · omega
        | placeholder => simp [pathOf?] at hplain
        | plain hstart =>
            rw [hasEscape_cons_iff hstart, TemplatePiece.fill, List.singleton_append]
            simp only [List.cons.injEq, true_and, List.length_cons, Nat.add_lt_add_iff_right]
            exact ih text.length (by simp) text hplain rfl

/-- A text without placeholders stands for itself exactly if no escape stands in
it. -/
theorem fill_ofText_eq_iff {body : String} (hplain : (ofText body).paths = [])
    (lookup : String → Option String) :
    (ofText body).fill lookup = body ↔ ¬HasEscape body.toList := by
  rw [paths_eq] at hplain
  unfold fill
  rw [← String.toList_inj, String.toList_ofList]
  rcases fill_cases lookup body.toList hplain with ⟨hno, hsame⟩ | ⟨hescape, hshorter⟩
  · exact iff_of_true hsame hno
  · refine iff_of_false ?_ (not_not_intro hescape)
    intro hsame
    exact absurd (congrArg List.length hsame) (Nat.ne_of_lt hshorter)

end ConfigNotation.Template
