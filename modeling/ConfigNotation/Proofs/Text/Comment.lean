import ConfigNotation.Text.Comment

/-!
Blanking comments, one part of a text after the other. Whether a string is open can be
told from the blanked text alone, as no quote of a comment is left in it.
-/

namespace ConfigNotation.Text

/-- Whether a string is open behind a character: not at all, or so that the next
character is protected, or not. -/
def quoteStep : Option Bool → Char → Option Bool
  | none, c => if c = '"' then some false else none
  | some true, _ => some false
  | some false, c => if c = '\\' then some true else if c = '"' then none else some false

def quoteState (state : Option Bool) (text : List Char) : Option Bool :=
  text.foldl quoteStep state

@[simp] theorem quoteState_nil (state : Option Bool) : quoteState state [] = state := rfl

@[simp] theorem quoteState_cons (state : Option Bool) (c : Char) (rest : List Char) :
    quoteState state (c :: rest) = quoteState (quoteStep state c) rest := rfl

theorem quoteState_append (state : Option Bool) (first second : List Char) :
    quoteState state (first ++ second) = quoteState (quoteState state first) second :=
  List.foldl_append

/-- A character is protected only behind a backslash. -/
theorem getLast?_of_quoteState {state : Option Bool} {text : List Char}
    (hstate : state ≠ some true) (h : quoteState state text = some true) :
    text.getLast? = some '\\' := by
  rcases List.eq_nil_or_concat text with rfl | ⟨front, c, rfl⟩
  · exact absurd h hstate
  · rw [List.concat_eq_append, quoteState_append] at h
    have hlast : quoteStep (quoteState state front) c = some true := h
    rcases hfront : quoteState state front with _ | _ | _ <;> simp [hfront, quoteStep] at hlast
    simp [hlast]

def CommentMode.openString : CommentMode → Option Bool
  | .string escaped => some escaped
  | _ => none

/-- One step keeps track of the string that is open: what is left of the
character tells the same as the mode does. -/
theorem CommentMode.step_openString (mode : CommentMode) (previous : Option Char) (offset : Nat)
    (c : Char) :
    quoteStep mode.openString (mode.step previous offset c).2 =
      (mode.step previous offset c).1.openString := by
  cases mode with
  | code =>
      by_cases hquote : c = '"'
      · simp [step, openString, quoteStep, hquote]
      · by_cases hhash : c = '#'
        · simp [step, openString, quoteStep, hhash]
        · cases hmark : isCommentQuote previous c <;>
            simp [step, openString, quoteStep, hquote, hhash, hmark]
  | string escaped =>
      cases escaped with
      | true => rfl
      | false =>
          by_cases hbackslash : c = '\\'
          · simp [step, openString, quoteStep, hbackslash]
          · by_cases hquote : c = '"' <;>
              simp [step, openString, quoteStep, hbackslash, hquote]
  | line => by_cases hend : c = '\n' <;> simp [step, openString, quoteStep, hend]
  | block opening =>
      cases hmark : isCommentQuote previous c
      · by_cases hend : c = '\n'
        · subst hend
          simp [step, openString, quoteStep, hmark, blanked]
        · simp [step, openString, quoteStep, hmark, blanked, hend]
      · simp [step, openString, quoteStep, hmark]

theorem blankFrom_cons (mode : CommentMode) (previous : Option Char) (offset : Nat) (c : Char)
    (rest : List Char) :
    blankFrom mode previous offset (c :: rest) =
      ((mode.step previous offset c).2 ::
        (blankFrom (mode.step previous offset c).1 (some c)
          (offset + (mode.step previous offset c).2.utf8Size) rest).1,
      (blankFrom (mode.step previous offset c).1 (some c)
        (offset + (mode.step previous offset c).2.utf8Size) rest).2) := rfl

/-- Read without its comments, a text has the same string open at its end as the
blanking has. -/
theorem blankFrom_openString (mode : CommentMode) (previous : Option Char) (offset : Nat)
    (text : List Char) :
    quoteState mode.openString (blankFrom mode previous offset text).1 =
      (blankFrom mode previous offset text).2.openString := by
  induction text generalizing mode previous offset with
  | nil => rfl
  | cons c rest ih => rw [blankFrom_cons, quoteState_cons, CommentMode.step_openString, ih]

theorem length_blankFrom (mode : CommentMode) (previous : Option Char) (offset : Nat)
    (text : List Char) :
    (blankFrom mode previous offset text).1.length = text.length := by
  induction text generalizing mode previous offset with
  | nil => rfl
  | cons c rest ih => rw [blankFrom_cons, List.length_cons, List.length_cons, ih]

/-- The last character of a text, or the one before the text. -/
def lastOr (previous : Option Char) (text : List Char) : Option Char :=
  text.getLast?.or previous

/-- Blanking can be done in two parts, the second one from the mode, the offset
and the last character that the first one leaves. -/
theorem blankFrom_append (mode : CommentMode) (previous : Option Char) (offset : Nat)
    (first second : List Char) :
    blankFrom mode previous offset (first ++ second) =
      ((blankFrom mode previous offset first).1 ++
        (blankFrom (blankFrom mode previous offset first).2 (lastOr previous first)
          (offset + byteSize (blankFrom mode previous offset first).1) second).1,
      (blankFrom (blankFrom mode previous offset first).2 (lastOr previous first)
        (offset + byteSize (blankFrom mode previous offset first).1) second).2) := by
  induction first generalizing mode previous offset with
  | nil => simp [blankFrom, lastOr]
  | cons c rest ih =>
      have hlast : lastOr (some c) rest = lastOr previous (c :: rest) := by
        cases rest <;> simp [lastOr, List.getLast?_cons]
      rw [List.cons_append, blankFrom_cons, ih, blankFrom_cons, hlast, List.cons_append,
        byteSize_cons, Nat.add_assoc]

/-- A text in which nothing is replaced when it is read as code, and which ends
as code. -/
structure IsVerbatim (text : List Char) : Prop where
  noReturn : '\r' ∉ text
  blanked : ∀ previous offset, blankFrom .code previous offset text = (text, .code)

theorem IsVerbatim.append {first second : List Char} (hfirst : IsVerbatim first)
    (hsecond : IsVerbatim second) :
    IsVerbatim (first ++ second) where
  noReturn := by simp [hfirst.noReturn, hsecond.noReturn]
  blanked previous offset := by
    rw [blankFrom_append, hfirst.blanked, hsecond.blanked]

/-- A character that means nothing but itself outside of strings and comments. -/
def IsCodeChar (c : Char) : Prop := c ≠ '"' ∧ c ≠ '#' ∧ c ≠ '\'' ∧ c ≠ '\r'

instance : DecidablePred IsCodeChar := fun c =>
  inferInstanceAs (Decidable (c ≠ '"' ∧ c ≠ '#' ∧ c ≠ '\'' ∧ c ≠ '\r'))

/-- A condition on the characters of a text is decided along the text, not over
all characters there are. -/
instance decidableForallMem (condition : Char → Prop) [DecidablePred condition]
    (text : List Char) : Decidable (∀ c ∈ text, condition c) :=
  List.decidableBAll condition text

theorem IsVerbatim.of_codeChars {text : List Char} (h : ∀ c ∈ text, IsCodeChar c) :
    IsVerbatim text where
  noReturn hmember := (h _ hmember).2.2.2 rfl
  blanked previous offset := by
    induction text generalizing previous offset with
    | nil => rfl
    | cons c rest ih =>
        rw [List.forall_mem_cons] at h
        obtain ⟨⟨hquote, hhash, hmark, _⟩, hrest⟩ := h
        have hstep : CommentMode.step .code previous offset c = (.code, c) := by
          simp [CommentMode.step, isCommentQuote, hquote, hhash, hmark]
        rw [blankFrom_cons, hstep, ih hrest]

theorem normalizeNewlines_of_not_mem {text : List Char} (h : '\r' ∉ text) :
    normalizeNewlines text = text := by
  induction text with
  | nil => rfl
  | cons c rest ih =>
      rw [List.mem_cons, not_or] at h
      rw [normalizeNewlines.eq_def]
      split
      · next heq => cases heq
      · next heq => cases heq; exact absurd rfl h.1
      · next heq =>
        cases heq
        rw [ih h.2, if_neg (Ne.symm h.1)]

/-- A text in which nothing means a comment is left as it is. -/
theorem stripComments_of_isVerbatim {text : List Char} (h : IsVerbatim text) :
    stripComments text = .ok text := by
  rw [stripComments, normalizeNewlines_of_not_mem h.noReturn, h.blanked]

end ConfigNotation.Text
