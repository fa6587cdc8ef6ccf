import ConfigNotation.Proofs.Text.Placeholders

/-!
The grammar of placeholders, read as it is written: where a text has several forms, all of
them count. The scanner finds a placeholder exactly if some first part of the text has a
form, and what it gives is what this form stands for. A default in quotes is preferred to
any other form.
-/

namespace ConfigNotation.Placeholder

/-- A placeholder taken apart as its grammar has it. How the blanks behind
the question mark are shared between the gap and a default without quotes is
left open. -/
inductive Form where
  | bare (path : List Char)
  | quoted (path gap inner run : List Char)
  | plain (path gap inner run : List Char)

namespace Form

def path : Form → List Char
  | bare path | quoted path _ _ _ | plain path _ _ _ => path

def written : Form → List Char
  | bare path => '[' :: (path ++ [']'])
  | quoted path gap inner run | plain path gap inner run =>
      '[' :: (path ++ (gap ++ '?' :: (inner ++ (run ++ [']']))))

def WellFormed : Form → Prop
  | bare path => IsPath path
  | quoted path gap inner run => IsPath path ∧ IsGap gap ∧ IsGap inner ∧ IsQuoted run
  | plain path gap inner run =>
      IsPath path ∧ IsGap gap ∧ IsGap inner ∧ run ≠ [] ∧ ']' ∉ run

def InQuotes : Form → Prop
  | quoted .. => True
  | _ => False

def IsPlain : Form → Prop
  | plain .. => True
  | _ => False

end Form

/-- The default that a text without quotes behind a question mark stands for.
The blanks in front belong to the gap, but if there is nothing else, they are
the default. -/
def plainDefault (behind : List Char) : List Char :=
  if behind.all isGap then behind else behind.dropWhile isGap

namespace Form

def default? : Form → Option (List Char)
  | bare _ => none
  | quoted _ _ _ run => some run
  | plain _ _ inner run => some (plainDefault (inner ++ run))

def placeholder (form : Form) : Placeholder :=
  ⟨form.written, String.ofList form.path, form.default?⟩

end Form

section

variable {text path gap inner run rest : List Char}

/-- A default without quotes, in front of a closing bracket that ends no default
in quotes. -/
theorem exists_isDefault_plain (hinner : IsGap inner) (hne : run ≠ []) (hopen : ']' ∉ run)
    (hunquoted : ∀ blanks quoted after, IsGap blanks → IsQuoted quoted →
      inner ++ (run ++ ']' :: rest) ≠ blanks ++ (quoted ++ ']' :: after)) :
    ∃ blanks, IsDefault blanks (plainDefault (inner ++ run)) rest ∧
      blanks ++ plainDefault (inner ++ run) = inner ++ run := by
  have hclosed : ']' ∉ inner ++ run := by
    rintro hmember
    rcases List.mem_append.1 hmember with hgap | hrun
    · exact absurd (hinner _ hgap) (by decide)
    · exact hopen hrun
  have hsome : inner ++ run ≠ [] := List.append_ne_nil_of_right_ne_nil _ hne
  rw [← List.append_assoc] at hunquoted
  generalize inner ++ run = behind at *
  by_cases hall : behind.all isGap = true
  · rw [plainDefault, if_pos hall]
    exact ⟨[], .blank hsome (List.all_eq_true.1 hall) rest, rfl⟩
  · obtain ⟨blanks, body, rfl, hblanks, hstart⟩ := IsGap.exists_append behind
    have hbody : body ≠ [] := by
      rintro rfl
      rw [List.append_nil] at hall
      exact hall (List.all_eq_true.2 hblanks)
    have hdrop : (blanks ++ body).dropWhile isGap = body := by
      obtain ⟨first, rest, rfl⟩ := List.exists_cons_of_ne_nil hbody
      rw [List.dropWhile_append_of_pos hblanks, List.dropWhile_cons_of_neg]
      rw [hstart first rfl]
      exact Bool.false_ne_true
    rw [plainDefault, if_neg hall, hdrop]
    refine ⟨blanks, .plain hblanks hbody hstart ?_ ?_, rfl⟩
    · exact fun hmember => hclosed (List.mem_append_right _ hmember)
    · intro quoted after hquoted heq
      refine hunquoted blanks quoted after hblanks hquoted ?_
      rw [List.append_assoc, heq]

/-- A form that a text starts with is what is found, unless it is without
quotes where one in quotes stands as well. -/
theorem Form.scan?_of_isPrefix {form : Form} (hform : form.WellFormed)
    (hbegins : form.written <+: '[' :: text)
    (hpreferred : form.IsPlain → ∀ other : Form, other.WellFormed → other.InQuotes →
      ¬other.written <+: '[' :: text) :
    scan? text = some form.placeholder := by
  obtain ⟨rest, htext⟩ := hbegins
  cases form with
  | bare path => exact scan?_eq_some_iff.2 ⟨rest, .bare hform rest, htext.symm⟩
  | quoted path gap inner run =>
      obtain ⟨hpath, hgap, hinner, hrun⟩ := hform
      exact scan?_eq_some_iff.2 ⟨rest, .defaulted hpath hgap (.quoted hinner hrun rest), htext.symm⟩
  | plain path gap inner run =>
      obtain ⟨hpath, hgap, hinner, hne, hopen⟩ := hform
      have hunquoted (blanks quoted after : List Char) (hblanks : IsGap blanks)
          (hquoted : IsQuoted quoted) :
          inner ++ (run ++ ']' :: rest) ≠ blanks ++ (quoted ++ ']' :: after) := by
        intro heq
        refine hpreferred trivial (.quoted path gap blanks quoted) ⟨hpath, hgap, hblanks, hquoted⟩
          trivial ⟨after, ?_⟩
        simpa [Form.written, ← heq] using htext
      obtain ⟨blanks, hdefault, hsame⟩ := exists_isDefault_plain hinner hne hopen hunquoted
      have hwritten : '[' :: (path ++ (gap ++ '?' :: (blanks ++ (plainDefault (inner ++ run) ++
          [']'])))) = (Form.plain path gap inner run).written := by
        rw [← List.append_assoc blanks, hsame, Form.written, List.append_assoc]
      have hstands := Stands.defaulted hpath hgap hdefault
      rw [hwritten] at hstands
      exact scan?_eq_some_iff.2 ⟨rest, hstands, htext.symm⟩

/-- What stands in front of some rest has a form. -/
theorem Stands.exists_form {value : Placeholder} (h : value.Stands rest) :
    ∃ form : Form, form.WellFormed ∧ form.written = value.written := by
  cases h with
  | @bare path hpath => exact ⟨.bare path, hpath, rfl⟩
  | @defaulted path gap inner run _ hpath hgap hdefault =>
      cases hdefault with
      | quoted hinner hrun => exact ⟨.quoted path gap inner run, ⟨hpath, hgap, hinner, hrun⟩, rfl⟩
      | plain hinner hne _ hopen =>
          exact ⟨.plain path gap inner run, ⟨hpath, hgap, hinner, hne, hopen⟩, rfl⟩
      | blank hne hrun =>
          have hopen : ']' ∉ run := fun hmember => absurd (hrun _ hmember) (by decide)
          exact ⟨.plain path gap [] run, ⟨hpath, hgap, nofun, hne, hopen⟩, rfl⟩

end

/-- Behind a bracket a placeholder is found exactly if a first part of the
text has a form of the grammar. What is found is what such a part stands for:
one in quotes if there is one, and else any, since all of them then stand for
the same. -/
theorem scan_follows_grammar (text : List Char) :
    ((∃ found, scan? text = some found) ↔
      ∃ form : Form, form.WellFormed ∧ form.written <+: '[' :: text) ∧
    ∀ form : Form, form.WellFormed → form.written <+: '[' :: text →
      (form.IsPlain → ∀ other : Form, other.WellFormed → other.InQuotes →
        ¬other.written <+: '[' :: text) →
      scan? text = some form.placeholder := by
  refine ⟨⟨?_, ?_⟩, fun form => Form.scan?_of_isPrefix⟩
  · rintro ⟨found, hfound⟩
    obtain ⟨rest, hstands, htext⟩ := scan?_eq_some_iff.1 hfound
    obtain ⟨form, hform, hwritten⟩ := hstands.exists_form
    exact ⟨form, hform, rest, by rw [hwritten, htext]⟩
  · rintro ⟨form, hform, hbegins⟩
    by_cases hquoted : ∃ other : Form, other.WellFormed ∧ other.InQuotes ∧
        other.written <+: '[' :: text
    · obtain ⟨other, hother, hinQuotes, hfirst⟩ := hquoted
      refine ⟨_, Form.scan?_of_isPrefix hother hfirst fun hplain => ?_⟩
      cases other <;> first | exact hplain.elim | exact hinQuotes.elim
    · push Not at hquoted
      exact ⟨_, Form.scan?_of_isPrefix hform hbegins fun _ => hquoted⟩

end ConfigNotation.Placeholder
