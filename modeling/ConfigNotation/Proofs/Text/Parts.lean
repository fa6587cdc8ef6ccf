import Mathlib.Data.List.Induction
import ConfigNotation.Proofs.Text.Comment

/-!
The parts of a text: code, strings and comments stand one behind the other, and at the end
a string or a comment may still be open. Blanking finds just these parts.
-/

namespace ConfigNotation

namespace Text

/-- The text of a string behind its opening quote, as long as the string is open.
The flag says whether a backslash at its end protects the next character. -/
inductive InString : Bool → List Char → Prop where
  | nil : InString false []
  | plain {body : List Char} {c : Char} (h : InString false body) (hquote : c ≠ '"')
      (hbackslash : c ≠ '\\') :
      InString false (body ++ [c])
  | escape {body : List Char} (h : InString false body) : InString true (body ++ ['\\'])
  | escaped {body : List Char} {c : Char} (h : InString true body) : InString false (body ++ [c])

/-- The text of a comment behind its opening apostrophe, as long as the comment
is open: every further apostrophe stands behind a backslash. -/
def InBlock (body : List Char) : Prop :=
  ∀ before after, body = before ++ '\'' :: after → before.getLast? = some '\\'

/-- A text that ends outside of strings and comments, and what is left of it. An
apostrophe behind a backslash opens no comment and closes none. -/
inductive Stripped : List Char → List Char → Prop where
  | nil : Stripped [] []
  | code {text left : List Char} {c : Char} (h : Stripped text left) (hquote : c ≠ '"')
      (hhash : c ≠ '#') (hmark : c = '\'' → text.getLast? = some '\\') :
      Stripped (text ++ [c]) (left ++ [c])
  | string {text left body : List Char} (h : Stripped text left) (hbody : InString false body) :
      Stripped (text ++ '"' :: body ++ ['"']) (left ++ '"' :: body ++ ['"'])
  | line {text left body : List Char} (h : Stripped text left) (hbody : '\n' ∉ body) :
      Stripped (text ++ '#' :: body ++ ['\n']) (left ++ ('#' :: body).map blanked ++ ['\n'])
  | block {text left body : List Char} (h : Stripped text left)
      (hopening : text.getLast? ≠ some '\\') (hbody : InBlock body)
      (hclosing : body.getLast? ≠ some '\\') :
      Stripped (text ++ '\'' :: body ++ ['\'']) (left ++ ('\'' :: body).map blanked ++ [' '])

/-- What stands at the end of a text behind a part outside of strings and comments,
and what is left of it: nothing, or a string or a comment that is open. -/
inductive OpenEnd (front left : List Char) : CommentMode → List Char → List Char → Prop where
  | code : OpenEnd front left .code [] []
  | string {escaped : Bool} {body : List Char} (hbody : InString escaped body) :
      OpenEnd front left (.string escaped) ('"' :: body) ('"' :: body)
  | line {body : List Char} (hbody : '\n' ∉ body) :
      OpenEnd front left .line ('#' :: body) (('#' :: body).map blanked)
  | block {body : List Char} (hopening : front.getLast? ≠ some '\\') (hbody : InBlock body) :
      OpenEnd front left (.block (byteSize left)) ('\'' :: body) (('\'' :: body).map blanked)

/-- A text with its parts, what is left of it, and what is open at its end. -/
inductive Parted : List Char → List Char → CommentMode → Prop where
  | intro {front left tail rest : List Char} {mode : CommentMode} (hfront : Stripped front left)
      (htail : OpenEnd front left mode tail rest) :
      Parted (front ++ tail) (left ++ rest) mode

namespace CommentMode

variable {previous : Option Char} {offset : Nat} {c : Char}

theorem step_code (hquote : c ≠ '"') (hhash : c ≠ '#') (hmark : c = '\'' → previous = some '\\') :
    step .code previous offset c = (.code, c) := by
  have hnot : isCommentQuote previous c = false := by
    by_cases hc : c = '\''
    · simp [isCommentQuote, hmark hc]
    · simp [isCommentQuote, hc]
  simp [step, hquote, hhash, hnot]

theorem step_opening (h : previous ≠ some '\\') :
    step .code previous offset '\'' = (.block offset, ' ') := by
  simp [step, isCommentQuote, h]

theorem step_string (hquote : c ≠ '"') (hbackslash : c ≠ '\\') :
    step (.string false) previous offset c = (.string false, c) := by
  simp [step, hquote, hbackslash]

theorem step_line (h : c ≠ '\n') : step .line previous offset c = (.line, blanked c) := by
  simp [step, blanked, h]

theorem step_block {opening : Nat} (hmark : c = '\'' → previous = some '\\') :
    step (.block opening) previous offset c = (.block opening, blanked c) := by
  have hnot : isCommentQuote previous c = false := by
    by_cases hc : c = '\''
    · simp [isCommentQuote, hmark hc]
    · simp [isCommentQuote, hc]
  simp [step, hnot]

theorem step_closing {opening : Nat} (h : previous ≠ some '\\') :
    step (.block opening) previous offset '\'' = (.code, ' ') := by
  simp [step, isCommentQuote, h]

end CommentMode

/-- Blanking reads one more character. -/
theorem blankFrom_concat {text written : List Char} {mode next : CommentMode} {c d : Char}
    (h : blankFrom .code none 0 text = (written, mode))
    (hstep : mode.step text.getLast? (byteSize written) c = (next, d)) :
    blankFrom .code none 0 (text ++ [c]) = (written ++ [d], next) := by
  rw [blankFrom_append, h]
  simp [blankFrom, lastOr, hstep]

theorem getLast?_append_cons (text body : List Char) (c : Char) :
    (text ++ c :: body).getLast? = (c :: body).getLast? := by
  rw [List.getLast?_append, List.getLast?_cons]
  rfl

theorem not_backslash_of_mark {body : List Char} (h : body.getLast? ≠ some '\\') :
    ('\'' :: body).getLast? ≠ some '\\' := by
  cases body with
  | nil => simp
  | cons c rest => simpa [List.getLast?_cons] using h

theorem inBlock_nil : InBlock [] := by
  intro before after h
  simp at h

/-- A comment in a block goes on over a character unless this is an apostrophe
that no backslash protects. -/
theorem inBlock_concat_iff {body : List Char} {c : Char} :
    InBlock (body ++ [c]) ↔ InBlock body ∧ (c = '\'' → body.getLast? = some '\\') := by
  constructor
  · intro h
    refine ⟨fun before after hsplit => ?_, fun hc => ?_⟩
    · apply h before (after ++ [c])
      simp [hsplit]
    · apply h body []
      rw [hc]
  · rintro ⟨hbody, hlast⟩ before after hsplit
    rcases List.eq_nil_or_concat after with rfl | ⟨others, d, rfl⟩
    · obtain ⟨rfl, hc⟩ := List.append_inj' hsplit rfl
      exact hlast (List.cons.inj hc).1
    · apply hbody before others
      rw [List.concat_eq_append, ← List.cons_append, ← List.append_assoc] at hsplit
      exact (List.append_inj' hsplit rfl).1

/-- Behind a part outside of strings and comments, blanking reads what is open
as such. -/
theorem OpenEnd.blankFrom {front left tail rest : List Char} {mode : CommentMode}
    (h : OpenEnd front left mode tail rest)
    (hfront : blankFrom .code none 0 front = (left, .code)) :
    blankFrom .code none 0 (front ++ tail) = (left ++ rest, mode) := by
  cases h with
  | code => simpa using hfront
  | string hbody =>
      induction hbody with
      | nil => exact blankFrom_concat hfront rfl
      | plain _ hquote hbackslash ih =>
          simpa using blankFrom_concat ih (CommentMode.step_string hquote hbackslash)
      | escape _ ih =>
          have hnext := blankFrom_concat ih (c := '\\') rfl
          simpa using hnext
      | @escaped body c _ ih =>
          have hnext := blankFrom_concat ih (c := c) rfl
          simpa using hnext
  | @line body hbody =>
      induction body using List.reverseRecOn with
      | nil => exact blankFrom_concat hfront rfl
      | append_singleton body c ih =>
          simp only [List.mem_append, List.mem_singleton, not_or] at hbody
          simpa using blankFrom_concat (ih hbody.1) (CommentMode.step_line (Ne.symm hbody.2))
  | @block body hopening hbody =>
      induction body using List.reverseRecOn with
      | nil => exact blankFrom_concat hfront (CommentMode.step_opening hopening)
      | append_singleton body c ih =>
          obtain ⟨hbefore, hmark⟩ := inBlock_concat_iff.1 hbody
          have hlast : c = '\'' → (front ++ '\'' :: body).getLast? = some '\\' := by
            intro hc
            rw [getLast?_append_cons]
            simp [List.getLast?_cons, hmark hc]
          simpa using blankFrom_concat (ih hbefore) (CommentMode.step_block hlast)

/-- A text with its parts, all of them closed, is blanked to what is left of it
and ends as code. -/
theorem Stripped.blankFrom {text left : List Char} (h : Stripped text left) :
    blankFrom .code none 0 text = (left, .code) := by
  induction h with
  | nil => rfl
  | code _ hquote hhash hmark ih =>
      exact blankFrom_concat ih (CommentMode.step_code hquote hhash hmark)
  | string _ hbody ih => exact blankFrom_concat ((OpenEnd.string hbody).blankFrom ih) rfl
  | line _ hbody ih => exact blankFrom_concat ((OpenEnd.line hbody).blankFrom ih) rfl
  | block _ hopening hbody hclosing ih =>
      apply blankFrom_concat ((OpenEnd.block hopening hbody).blankFrom ih)
      apply CommentMode.step_closing
      rw [getLast?_append_cons]
      exact not_backslash_of_mark hclosing

/-- The same for a text that ends inside a part: the mode tells which one
is open. -/
theorem Parted.blankFrom {text written : List Char} {mode : CommentMode}
    (h : Parted text written mode) :
    blankFrom .code none 0 text = (written, mode) := by
  obtain ⟨hfront, htail⟩ := h
  exact htail.blankFrom hfront.blankFrom

theorem Stripped.parted {text left : List Char} (h : Stripped text left) :
    Parted text left .code := by
  simpa using Parted.intro h .code

/-- One more character belongs to what is open, closes it or opens something. -/
theorem Parted.concat {text written : List Char} {mode : CommentMode} (h : Parted text written mode)
    (c : Char) :
    ∃ next d, Parted (text ++ [c]) (written ++ [d]) next := by
  obtain @⟨front, left, _, _, _, hfront, htail⟩ := h
  cases htail with
  | code =>
      simp only [List.append_nil]
      by_cases hquote : c = '"'
      · subst hquote
        exact ⟨_, _, .intro hfront (.string .nil)⟩
      · by_cases hhash : c = '#'
        · subst hhash
          exact ⟨_, _, .intro hfront (.line List.not_mem_nil)⟩
        · by_cases hmark : c = '\'' → front.getLast? = some '\\'
          · exact ⟨_, _, (Stripped.code hfront hquote hhash hmark).parted⟩
          · rw [Classical.not_imp] at hmark
            obtain ⟨rfl, hopening⟩ := hmark
            exact ⟨_, _, .intro hfront (.block hopening inBlock_nil)⟩
  | @string escaped body hbody =>
      cases escaped with
      | true =>
          have hnext := Parted.intro hfront (.string (hbody.escaped (c := c)))
          exact ⟨_, c, by simpa using hnext⟩
      | false =>
          by_cases hquote : c = '"'
          · subst hquote
            exact ⟨_, _, (Stripped.string hfront hbody).parted⟩
          · by_cases hbackslash : c = '\\'
            · subst hbackslash
              have hnext := Parted.intro hfront (.string hbody.escape)
              exact ⟨_, '\\', by simpa using hnext⟩
            · have hnext := Parted.intro hfront (.string (hbody.plain hquote hbackslash))
              exact ⟨_, c, by simpa using hnext⟩
  | @line body hbody =>
      by_cases hend : c = '\n'
      · subst hend
        exact ⟨_, _, (Stripped.line hfront hbody).parted⟩
      · have hlonger : '\n' ∉ body ++ [c] := by simp [hbody, Ne.symm hend]
        have hnext := Parted.intro hfront (.line hlonger)
        exact ⟨_, blanked c, by simpa using hnext⟩
  | @block body hopening hbody =>
      by_cases hmark : c = '\'' → body.getLast? = some '\\'
      · have hnext := Parted.intro hfront (.block hopening (inBlock_concat_iff.2 ⟨hbody, hmark⟩))
        exact ⟨_, blanked c, by simpa using hnext⟩
      · rw [Classical.not_imp] at hmark
        obtain ⟨rfl, hclosing⟩ := hmark
        exact ⟨_, _, (Stripped.block hfront hopening hbody hclosing).parted⟩

/-- Every text has parts. -/
theorem exists_parted (text : List Char) : ∃ written mode, Parted text written mode := by
  induction text using List.reverseRecOn with
  | nil => exact ⟨[], .code, Stripped.nil.parted⟩
  | append_singleton text c ih =>
      obtain ⟨written, mode, h⟩ := ih
      obtain ⟨next, d, hnext⟩ := h.concat c
      exact ⟨_, _, hnext⟩

/-- The parts of a text are those that blanking finds. -/
theorem parted_iff {text written : List Char} {mode : CommentMode} :
    Parted text written mode ↔ blankFrom .code none 0 text = (written, mode) := by
  constructor
  · exact Parted.blankFrom
  · intro h
    obtain ⟨other, last, hparted⟩ := exists_parted text
    obtain ⟨rfl, rfl⟩ := Prod.mk.inj (h.symm.trans hparted.blankFrom)
    exact hparted

end Text

end ConfigNotation
