import Mathlib.Data.List.TakeWhile
import ConfigNotation.Proofs.Number.Numeral
import ConfigNotation.Proofs.Token.Spelling
import ConfigNotation.Text.Template

/-!
Which texts are placeholders: a dotted path in brackets, perhaps with a default behind a
question mark. A default in quotes ends at the quote in front of the closing bracket, and any
other one at the first bracket. The scanner finds a placeholder exactly where one stands,
and what it takes for the parts of it are its parts.
-/

namespace ConfigNotation.Placeholder

/-- A name, or a run of digits. -/
def IsSegment (segment : List Char) : Prop :=
  isIdentifier segment = true ∨ segment ≠ [] ∧ AreDigits segment

/-- Segments with a point before each. -/
inductive AreSegments : List Char → Prop where
  | nil : AreSegments []
  | cons {segment rest : List Char} (hsegment : IsSegment segment) (hrest : AreSegments rest) :
      AreSegments ('.' :: (segment ++ rest))

/-- A name, and segments behind it. -/
inductive IsPath : List Char → Prop where
  | intro {name rest : List Char} (hname : isIdentifier name = true) (hrest : AreSegments rest) :
      IsPath (name ++ rest)

def IsGap (text : List Char) : Prop := ∀ c ∈ text, isGap c = true

/-- What stands between two quotes: a backslash takes the next character with
it. -/
inductive IsQuotable : List Char → Prop where
  | nil : IsQuotable []
  | pair (c : Char) {rest : List Char} (hrest : IsQuotable rest) : IsQuotable ('\\' :: c :: rest)
  | plain {c : Char} {rest : List Char} (hquote : c ≠ '"') (hbackslash : c ≠ '\\')
      (hrest : IsQuotable rest) : IsQuotable (c :: rest)

inductive IsQuoted : List Char → Prop where
  | intro {body : List Char} (hbody : IsQuotable body) : IsQuoted ('"' :: (body ++ ['"']))

/-- A default and the gap before it, in front of the closing bracket and some
rest. Blanks are a default where nothing else is. -/
inductive IsDefault : List Char → List Char → List Char → Prop where
  | quoted {gap run : List Char} (hgap : IsGap gap) (hrun : IsQuoted run) (rest : List Char) :
      IsDefault gap run rest
  | plain {gap run rest : List Char} (hgap : IsGap gap) (hne : run ≠ [])
      (hstart : ∀ c ∈ run.head?, isGap c = false) (hopen : ']' ∉ run)
      (hunquoted : ∀ quoted after, IsQuoted quoted →
        run ++ ']' :: rest ≠ quoted ++ ']' :: after) :
      IsDefault gap run rest
  | blank {run : List Char} (hne : run ≠ []) (hrun : IsGap run) (rest : List Char) :
      IsDefault [] run rest

/-- A placeholder that stands in front of some rest. -/
inductive Stands : Placeholder → List Char → Prop where
  | bare {path : List Char} (hpath : IsPath path) (rest : List Char) :
      Stands ⟨'[' :: (path ++ [']']), String.ofList path, none⟩ rest
  | defaulted {path gap inner run rest : List Char} (hpath : IsPath path) (hgap : IsGap gap)
      (hdefault : IsDefault inner run rest) :
      Stands ⟨'[' :: (path ++ (gap ++ '?' :: (inner ++ (run ++ [']'])))), String.ofList path,
        some run⟩ rest

section

variable {name segment path rest text : List Char}

/-- A name is read up to its end, if no character of a word follows. -/
theorem leadingName_append (hname : isIdentifier name = true)
    (hstops : ∀ c ∈ rest.head?, isWordChar c = false) : leadingName (name ++ rest) = name := by
  obtain ⟨first, tail, rfl, hfirst, htail⟩ := isIdentifier_spec hname
  rw [List.cons_append, leadingName, if_pos hfirst, takeWhile_append_stop htail hstops]

theorem leadingName_isPrefix (text : List Char) : leadingName text <+: text := by
  cases text with
  | nil => exact List.nil_prefix
  | cons c rest =>
      rw [leadingName]
      split
      · exact List.cons_prefix_cons.2 ⟨rfl, List.takeWhile_prefix _⟩
      · exact List.nil_prefix

theorem isIdentifier_leadingName (h : leadingName text ≠ []) :
    isIdentifier (leadingName text) = true := by
  cases text with
  | nil => exact absurd rfl h
  | cons c rest =>
      rw [leadingName] at h ⊢
      split
      · next hstart => simp [isIdentifier, hstart, List.all_takeWhile]
      · next hstart => exact absurd (if_neg hstart) h

theorem leadingSegment_append (hsegment : IsSegment segment)
    (hstops : ∀ c ∈ rest.head?, isWordChar c = false) :
    leadingSegment (segment ++ rest) = segment := by
  rcases hsegment with hname | ⟨hne, hdigits⟩
  · obtain ⟨first, tail, rfl, _⟩ := isIdentifier_spec hname
    rw [leadingSegment, leadingName_append hname hstops]
    rfl
  · have hnoName : leadingName (segment ++ rest) = [] := by
      obtain ⟨first, tail, rfl⟩ := List.exists_cons_of_ne_nil hne
      apply if_neg
      intro hstart
      exact not_isDigit_of_isIdentStart hstart (hdigits first List.mem_cons_self)
    have hrest : ∀ c ∈ rest.head?, c.isDigit = false := by
      intro c hc
      rw [Bool.eq_false_iff]
      intro hdigit
      exact Bool.eq_false_iff.1 (hstops c hc) (isWordChar_of_isDigit hdigit)
    rw [leadingSegment, hnoName, List.isEmpty_nil, if_pos rfl, takeWhile_append_stop hdigits hrest]

theorem leadingSegment_isPrefix (text : List Char) : leadingSegment text <+: text := by
  rw [leadingSegment]
  split
  · exact List.takeWhile_prefix _
  · exact leadingName_isPrefix text

theorem isSegment_leadingSegment (h : leadingSegment text ≠ []) :
    IsSegment (leadingSegment text) := by
  rw [leadingSegment] at h ⊢
  split at h
  · next hnoName =>
      rw [if_pos hnoName]
      exact .inr ⟨h, List.all_eq_true.1 List.all_takeWhile⟩
  · next hname =>
      rw [if_neg hname]
      exact .inl (isIdentifier_leadingName h)

theorem AreSegments.head?_append (h : AreSegments path) (hstops : Stops rest) :
    ∀ c ∈ (path ++ rest).head?, isWordChar c = false := by
  cases h with
  | nil => exact fun c hc => (hstops c hc).1
  | cons => rintro _ ⟨⟩; rfl

/-- Segments are read up to the last one of a path, in front of anything that no
segment goes on with. -/
theorem leadingSegments_append (h : AreSegments path) (hstops : Stops rest) :
    leadingSegments (path ++ rest) = path := by
  induction h with
  | nil =>
      cases rest with
      | nil => simp [leadingSegments]
      | cons c rest =>
          rw [List.nil_append, leadingSegments, if_neg]
          exact fun hpoint => (hstops c rfl).2 hpoint.1
  | @cons segment path hsegment hpath ih =>
      have hne : segment ≠ [] := by
        rintro rfl
        rcases hsegment with hname | ⟨hne, _⟩
        · cases hname
        · exact hne rfl
      have hlead := leadingSegment_append hsegment (hpath.head?_append hstops)
      rw [List.cons_append, List.append_assoc, leadingSegments, hlead, if_pos ⟨rfl, hne⟩,
        List.drop_left, ih, List.cons_append]

theorem prefix_append_of_drop {first second : List Char} (hfirst : first <+: text)
    (hsecond : second <+: text.drop first.length) : first ++ second <+: text := by
  obtain ⟨after, rfl⟩ := hfirst
  rw [List.drop_left] at hsecond
  exact List.prefix_append_right_inj first |>.2 hsecond

theorem areSegments_leadingSegments (text : List Char) :
    AreSegments (leadingSegments text) ∧ leadingSegments text <+: text := by
  induction text using leadingSegments.induct with
  | case1 => simp [leadingSegments, AreSegments.nil]
  | case2 c rest segment hstart ih =>
      obtain ⟨rfl, hne⟩ := hstart
      obtain ⟨hsegments, hprefix⟩ := ih
      rw [leadingSegments, if_pos ⟨rfl, hne⟩, List.cons_append, List.cons_prefix_cons]
      exact ⟨.cons (isSegment_leadingSegment hne) hsegments, rfl,
        prefix_append_of_drop (leadingSegment_isPrefix rest) hprefix⟩
  | case3 c rest segment hstart =>
      rw [leadingSegments, if_neg hstart]
      exact ⟨.nil, List.nil_prefix⟩

/-- A path is read as a whole where no path goes on behind it. -/
theorem leadingPath_append (hpath : IsPath path) (hstops : Stops rest) :
    leadingPath (path ++ rest) = path := by
  obtain ⟨hname, hsegments⟩ := hpath
  have hlead := leadingName_append hname (hsegments.head?_append hstops)
  obtain ⟨first, tail, rfl, _⟩ := isIdentifier_spec hname
  rw [leadingPath, List.append_assoc, hlead, List.drop_left, leadingSegments_append hsegments hstops]
  rfl

/-- What is read as a path is one, and the text starts with it. -/
theorem isPath_leadingPath (h : leadingPath text ≠ []) :
    IsPath (leadingPath text) ∧ leadingPath text <+: text := by
  rw [leadingPath] at h ⊢
  split at h
  · exact absurd rfl h
  · next hname =>
      obtain ⟨hsegments, hprefix⟩ := areSegments_leadingSegments (text.drop (leadingName text).length)
      rw [if_neg hname]
      exact ⟨.intro (isIdentifier_leadingName fun hnil => hname (by simp [hnil])) hsegments,
        prefix_append_of_drop (leadingName_isPrefix text) hprefix⟩

theorem IsPath.ne_nil (h : IsPath path) : path ≠ [] := by
  obtain ⟨hname, _⟩ := h
  obtain ⟨first, tail, rfl, _⟩ := isIdentifier_spec hname
  exact nofun

theorem isWordChar_of_mem_identifier {c : Char} (hname : isIdentifier name = true)
    (hc : c ∈ name) : isWordChar c = true := by
  obtain ⟨first, tail, rfl, hfirst, htail⟩ := isIdentifier_spec hname
  rcases List.mem_cons.1 hc with rfl | hc
  · exact isWordChar_of_isIdentStart hfirst
  · exact htail c hc

theorem AreSegments.mem_cases (h : AreSegments path) {c : Char} (hc : c ∈ path) :
    isWordChar c = true ∨ c = '.' := by
  induction h with
  | nil => cases hc
  | cons hsegment _ ih =>
      rcases List.mem_cons.1 hc with rfl | hc
      · exact .inr rfl
      · rcases List.mem_append.1 hc with hc | hc
        · rcases hsegment with hname | ⟨_, hdigits⟩
          · exact .inl (isWordChar_of_mem_identifier hname hc)
          · exact .inl (isWordChar_of_isDigit (hdigits c hc))
        · exact ih hc

/-- A path is made of the characters of words, and points. -/
theorem IsPath.mem_cases (h : IsPath path) {c : Char} (hc : c ∈ path) :
    isWordChar c = true ∨ c = '.' := by
  obtain ⟨hname, hsegments⟩ := h
  rcases List.mem_append.1 hc with hc | hc
  · exact .inl (isWordChar_of_mem_identifier hname hc)
  · exact hsegments.mem_cases hc

theorem upToQuote?_append {body : List Char} (h : IsQuotable body) (rest : List Char) :
    upToQuote? (body ++ '"' :: rest) = some (body ++ ['"']) := by
  induction h with
  | nil => rfl
  | pair c _ ih => simp [upToQuote?, ih]
  | plain hquote hbackslash _ ih => simp [upToQuote?, hbackslash, ih]

/-- What is read up to a quote is a quotable text and the quote. A quote behind
a backslash does not end it. -/
theorem isQuotable_of_upToQuote? {run : List Char} (h : upToQuote? text = some run) :
    ∃ body, IsQuotable body ∧ run = body ++ ['"'] ∧ run <+: text := by
  induction text using upToQuote?.induct generalizing run with
  | case1 => cases h
  | case2 rest =>
      cases h
      exact ⟨[], .nil, rfl, List.prefix_append ['"'] rest⟩
  | case3 c rest ih =>
      rw [upToQuote?, Option.map_eq_some_iff] at h
      obtain ⟨_, hrest, rfl⟩ := h
      obtain ⟨body, hbody, rfl, hprefix⟩ := ih hrest
      exact ⟨_, .pair c hbody, rfl, by simpa using hprefix⟩
  | case4 c rest hquote hpair ih =>
      rw [upToQuote?, Option.map_eq_some_iff] at h
      · obtain ⟨_, hrest, rfl⟩ := h
        obtain ⟨body, hbody, rfl, hprefix⟩ := ih hrest
        refine ⟨_, .plain hquote ?_ hbody, rfl, by simpa using hprefix⟩
        -- A backslash with nothing behind it takes nothing with it, and no quote follows.
        rintro rfl
        cases rest with
        | nil => cases hrest
        | cons d rest => exact hpair d rest rfl rfl
      · exact hquote
      · exact hpair

/-- A quoted run stands at the start of a text exactly if a quoted text with the
closing bracket behind it does. -/
theorem quotedRun?_eq_some_iff {run : List Char} :
    quotedRun? text = some run ↔ IsQuoted run ∧ ∃ rest, text = run ++ ']' :: rest := by
  constructor
  · intro h
    cases text with
    | nil => cases h
    | cons c text =>
        rw [quotedRun?.eq_def] at h
        split at h
        · next heq =>
            cases heq
            obtain ⟨found, hfound, h⟩ := Option.bind_eq_some_iff.1 h
            obtain ⟨body, hbody, rfl, after, rfl⟩ := isQuotable_of_upToQuote? hfound
            rw [List.drop_left] at h
            split at h
            · next hclosing =>
                cases h
                obtain ⟨rest, rfl⟩ := List.head?_eq_some_iff.1 hclosing
                exact ⟨.intro hbody, rest, rfl⟩
            · cases h
        · cases h
  · rintro ⟨⟨hbody⟩, rest, rfl⟩
    have hfound := upToQuote?_append hbody (']' :: rest)
    rw [List.cons_append, quotedRun?, List.append_assoc, List.singleton_append, hfound]
    simp

theorem plainRun?_append {run : List Char} (hne : run ≠ []) (hopen : ']' ∉ run)
    (rest : List Char) : plainRun? (run ++ ']' :: rest) = some run := by
  have hrun : ∀ c ∈ run, (c != ']') = true := by
    intro c hc
    rw [bne_iff_ne]
    rintro rfl
    exact hopen hc
  have hstop : ∀ c ∈ (']' :: rest).head?, (c != ']') = false := by
    rintro _ ⟨⟩
    rfl
  rw [plainRun?, takeWhile_append_stop hrun hstop, List.drop_left]
  simp [hne]

/-- A plain run is what stands before the first closing bracket, if that is
anything. -/
theorem plainRun?_eq_some_iff {run : List Char} :
    plainRun? text = some run ↔ run ≠ [] ∧ ']' ∉ run ∧ ∃ rest, text = run ++ ']' :: rest := by
  constructor
  · intro h
    by_cases hclosing : ']' ∈ text
    · obtain ⟨found, rest, rfl, hopen⟩ := List.eq_append_cons_of_mem hclosing
      by_cases hne : found = []
      · subst hne
        cases h
      · rw [plainRun?_append hne hopen] at h
        cases h
        exact ⟨hne, hopen, rest, rfl⟩
    · have hall : text.takeWhile (· != ']') = text := by
        rw [List.takeWhile_eq_self_iff]
        intro c hc
        rw [bne_iff_ne]
        rintro rfl
        exact hclosing hc
      rw [plainRun?, hall, List.drop_length] at h
      simp at h
  · rintro ⟨hne, hopen, rest, rfl⟩
    exact plainRun?_append hne hopen rest

theorem IsGap.exists_append (text : List Char) :
    ∃ gap body, text = gap ++ body ∧ IsGap gap ∧ ∀ c ∈ body.head?, isGap c = false := by
  refine ⟨text.takeWhile isGap, text.dropWhile isGap, List.takeWhile_append_dropWhile.symm,
    List.all_eq_true.1 List.all_takeWhile, ?_⟩
  intro c hc
  have hstop := List.head?_dropWhile_not isGap text
  rw [hc] at hstop
  simpa using hstop

/-- With the gap known, a quoted run is the default if there is one. Else what
stands before the closing bracket is, and the gap itself where nothing stands
there. -/
theorem gapAndDefault?_append {gap body : List Char} (hgap : IsGap gap)
    (hstart : ∀ c ∈ body.head?, isGap c = false) :
    gapAndDefault? (gap ++ body) =
      ((quotedRun? body).map fun run => (gap, run)).or
        (if body.head? = some ']' then (plainRun? (gap ++ body)).map fun run => ([], run)
          else (plainRun? body).map fun run => (gap, run)) := by
  rw [gapAndDefault?, takeWhile_append_stop hgap hstart, List.drop_left]
  cases quotedRun? body with
  | some run => simp
  | none => simp

theorem IsQuoted.head? {run : List Char} (h : IsQuoted run) (rest : List Char) :
    (run ++ rest).head? = some '"' := by
  cases h with
  | intro => rfl

/-- A default that is read stands behind the gap. -/
theorem isDefault_of_gapAndDefault? {gap run : List Char}
    (h : gapAndDefault? text = some (gap, run)) :
    ∃ rest, IsDefault gap run rest ∧ text = gap ++ (run ++ ']' :: rest) := by
  obtain ⟨blanks, body, rfl, hgap, hstart⟩ := IsGap.exists_append text
  rw [gapAndDefault?_append hgap hstart] at h
  cases hquoted : quotedRun? body with
  | some found =>
      rw [hquoted] at h
      cases h
      obtain ⟨hrun, rest, rfl⟩ := quotedRun?_eq_some_iff.1 hquoted
      exact ⟨rest, .quoted hgap hrun rest, rfl⟩
  | none =>
      rw [hquoted, Option.map_none, Option.none_or] at h
      split at h
      · next hclosing =>
          obtain ⟨rest, rfl⟩ := List.head?_eq_some_iff.1 hclosing
          obtain ⟨found, hfound, heq⟩ := Option.map_eq_some_iff.1 h
          cases heq
          have hopen : ']' ∉ blanks := fun hmember => absurd (hgap _ hmember) (by decide)
          by_cases hne : blanks = []
          · subst hne
            cases hfound
          · rw [plainRun?_append hne hopen] at hfound
            cases hfound
            exact ⟨rest, .blank hne hgap rest, rfl⟩
      · obtain ⟨found, hfound, heq⟩ := Option.map_eq_some_iff.1 h
        cases heq
        obtain ⟨hne, hopen, rest, rfl⟩ := plainRun?_eq_some_iff.1 hfound
        refine ⟨rest, .plain hgap hne ?_ hopen ?_, rfl⟩
        · intro c hc
          apply hstart
          rw [List.head?_append, hc]
          rfl
        · intro quoted after hrun heq
          rw [quotedRun?_eq_some_iff.2 ⟨hrun, after, heq⟩] at hquoted
          cases hquoted

/-- A default that stands behind a gap is read. -/
theorem gapAndDefault?_of_isDefault {gap run rest : List Char} (h : IsDefault gap run rest) :
    gapAndDefault? (gap ++ (run ++ ']' :: rest)) = some (gap, run) := by
  cases h with
  | quoted hgap hrun =>
      have hstart : ∀ c ∈ (run ++ ']' :: rest).head?, isGap c = false := by
        rw [hrun.head?]
        rintro _ ⟨⟩
        rfl
      rw [gapAndDefault?_append hgap hstart, quotedRun?_eq_some_iff.2 ⟨hrun, rest, rfl⟩]
      rfl
  | plain hgap hne hstart hopen hunquoted =>
      obtain ⟨first, tail, rfl⟩ := List.exists_cons_of_ne_nil hne
      have hbody : ∀ c ∈ (first :: tail ++ ']' :: rest).head?, isGap c = false := hstart
      have hquoted : quotedRun? (first :: tail ++ ']' :: rest) = none := by
        rw [Option.eq_none_iff_forall_ne_some]
        intro found hfound
        obtain ⟨hrun, after, heq⟩ := quotedRun?_eq_some_iff.1 hfound
        exact hunquoted found after hrun heq
      have hclosing : (first :: tail ++ ']' :: rest).head? ≠ some ']' := by
        rintro ⟨⟩
        exact hopen List.mem_cons_self
      rw [gapAndDefault?_append hgap hbody, hquoted, Option.map_none, Option.none_or,
        if_neg hclosing, plainRun?_append hne hopen, Option.map_some]
  | blank hne hrun =>
      have hopen : ']' ∉ run := fun hmember => absurd (hrun _ hmember) (by decide)
      have hstart : ∀ c ∈ (']' :: rest).head?, isGap c = false := by
        rintro _ ⟨⟩
        rfl
      rw [List.nil_append, gapAndDefault?_append hrun hstart, plainRun?_append hne hopen]
      rfl

/-- A gap ends a path, as long as what follows it does. -/
theorem stops_of_isGap {gap : List Char} (hgap : IsGap gap) (hstops : Stops rest) :
    Stops (gap ++ rest) := by
  cases gap with
  | nil => exact hstops
  | cons first gap =>
      rintro c ⟨⟩
      have hfirst := hgap first List.mem_cons_self
      simp only [isGap, Bool.or_eq_true, beq_iff_eq] at hfirst
      rcases hfirst with (((rfl | rfl) | rfl) | rfl) | rfl <;> decide

/-- What is scanned is a placeholder that stands in front of what is left. -/
theorem stands_of_scan? {value : Placeholder} (h : scan? text = some value) :
    ∃ rest, Stands value rest ∧ '[' :: text = value.written ++ rest := by
  rw [scan?] at h
  split at h
  · cases h
  · next hne =>
      obtain ⟨hpath, hprefix⟩ := isPath_leadingPath fun hnil => hne (by rw [hnil]; rfl)
      have htext := List.prefix_iff_eq_append.1 hprefix
      generalize leadingPath text = path at *
      generalize text.drop path.length = after at *
      subst htext
      split at h
      · next hclosing =>
          obtain ⟨rest, rfl⟩ := List.head?_eq_some_iff.1 hclosing
          cases h
          exact ⟨rest, .bare hpath rest, by simp⟩
      · obtain ⟨gap, body, rfl, hgap, hstart⟩ := IsGap.exists_append after
        rw [takeWhile_append_stop hgap hstart, List.drop_left] at h
        split at h
        · next afterMark =>
            obtain ⟨⟨inner, run⟩, hfound, hvalue⟩ := Option.bind_eq_some_iff.1 h
            obtain ⟨rest, hdefault, rfl⟩ := isDefault_of_gapAndDefault? hfound
            cases hvalue
            exact ⟨rest, by simpa using .defaulted hpath hgap hdefault, by simp⟩
        · cases h

/-- A placeholder that stands at the start of a text is found there. The quoted
reading goes first, which the condition on plain runs accounts for. -/
theorem scan?_of_stands {value : Placeholder} {rest : List Char} (h : Stands value rest)
    (htext : '[' :: text = value.written ++ rest) : scan? text = some value := by
  cases h with
  | @bare path hpath =>
      obtain rfl : text = path ++ ']' :: rest := by simpa using (List.cons.inj htext).2
      have hstops : Stops (']' :: rest) := by
        rintro _ ⟨⟩
        decide
      rw [scan?, leadingPath_append hpath hstops]
      simp [hpath.ne_nil]
  | @defaulted path gap inner run _ hpath hgap hdefault =>
      obtain rfl : text = path ++ (gap ++ '?' :: (inner ++ (run ++ ']' :: rest))) := by
        simpa using (List.cons.inj htext).2
      have hmark : Stops ('?' :: (inner ++ (run ++ ']' :: rest))) := by
        rintro _ ⟨⟩
        decide
      have hstart : ∀ c ∈ ('?' :: (inner ++ (run ++ ']' :: rest))).head?, isGap c = false := by
        rintro _ ⟨⟩
        rfl
      have hclosing : (gap ++ '?' :: (inner ++ (run ++ ']' :: rest))).head? ≠ some ']' := by
        cases gap with
        | nil => rintro ⟨⟩
        | cons first gap =>
            rintro ⟨⟩
            exact absurd (hgap _ List.mem_cons_self) (by decide)
      have hpathNe : ¬path.isEmpty = true := by simp [hpath.ne_nil]
      have hfound := gapAndDefault?_of_isDefault hdefault
      rw [scan?, leadingPath_append hpath (stops_of_isGap hgap hmark), List.drop_left,
        takeWhile_append_stop hgap hstart, List.drop_left, if_neg hpathNe, if_neg hclosing]
      simp [hfound]

/-- A placeholder is found behind a bracket exactly if it stands there. -/
theorem scan?_eq_some_iff {value : Placeholder} :
    scan? text = some value ↔
      ∃ rest, Stands value rest ∧ '[' :: text = value.written ++ rest :=
  ⟨stands_of_scan?, fun ⟨_, hstands, htext⟩ => scan?_of_stands hstands htext⟩

example : scan? "a.b.0 ? \"x]\"] tail".toList =
    some ⟨"[a.b.0 ? \"x]\"]".toList, "a.b.0", some "\"x]\"".toList⟩ := by
  decide +kernel

/-- Nothing is found exactly where no placeholder stands, whatever rest is
tried. -/
theorem scan?_eq_none_iff :
    scan? text = none ↔ ∀ (value : Placeholder) (rest : List Char), Stands value rest →
      '[' :: text ≠ value.written ++ rest := by
  simp only [Option.eq_none_iff_forall_ne_some, ne_eq, scan?_eq_some_iff, not_exists, not_and]

/-- A placeholder that stands in front of a rest is found behind its bracket,
and leaves that rest. -/
theorem Stands.found {value : Placeholder} (h : value.Stands rest) :
    ∃ text, value.written ++ rest = '[' :: text ∧ scan? text = some value ∧
      text.drop (value.written.length - 1) = rest := by
  obtain ⟨inner, hwritten⟩ : ∃ inner, value.written = '[' :: inner := by
    cases h <;> exact ⟨_, rfl⟩
  have htext : value.written ++ rest = '[' :: (inner ++ rest) := by
    rw [hwritten, List.cons_append]
  refine ⟨inner ++ rest, htext, scan?_eq_some_iff.2 ⟨rest, h, htext.symm⟩, ?_⟩
  rw [hwritten, List.length_cons, Nat.add_sub_cancel, List.drop_left]

end

end ConfigNotation.Placeholder
