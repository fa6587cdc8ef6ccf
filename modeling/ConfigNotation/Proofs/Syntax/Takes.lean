import ConfigNotation.Proofs.Syntax.Grammar

/-!
Reading from a cursor, as the tokens that it takes. What a reader takes is what the
grammar speaks of; the cursor behind it is given by these tokens alone.
-/

namespace ConfigNotation

open Grammar

theorem bind_eq_ok {ε α β : Type} {first : Except ε α} {next : α → Except ε β} {result : β} :
    first >>= next = .ok result ↔ ∃ value, first = .ok value ∧ next value = .ok result := by
  cases first with
  | error error => exact iff_of_false nofun nofun
  | ok value =>
      constructor
      · intro h
        exact ⟨value, rfl, h⟩
      · rintro ⟨_, ⟨⟩, h⟩
        exact h

theorem bind_eq_error {ε α β : Type} {first : Except ε α} {next : α → Except ε β} {error : ε} :
    first >>= next = .error error ↔
      first = .error error ∨ ∃ value, first = .ok value ∧ next value = .error error := by
  cases first with
  | error other => simp [bind, Except.bind]
  | ok value => simp [bind, Except.bind]

theorem bind_of_ok {ε α β : Type} {first : Except ε α} {next : α → Except ε β} {value : α}
    (h : first = .ok value) : first >>= next = next value := by
  rw [h]
  rfl

theorem inContext_eq_ok {α : Type} {context : ParseContext} {result : Except ParseError α}
    {value : α} : inContext context result = .ok value ↔ result = .ok value := by
  cases result with
  | error error => exact iff_of_false nofun nofun
  | ok found => exact Iff.rfl

/-- Two kinds differ if something that starts with the one does not start with
the other. -/
theorem ne_of_starts {starts : TokenKind → Bool} {kind other : TokenKind}
    (hkind : starts kind = true) (hother : starts other = false) : kind ≠ other := by
  rintro rfl
  rw [hkind] at hother
  cases hother

namespace Cursor

/-- A cursor is behind another one by some tokens, of which none is the end of
the input. -/
structure Takes (before : Cursor) (taken : List Token) (after : Cursor) : Prop where
  tokens : before.tokens = taken ++ after.tokens
  inside : ∀ token ∈ taken, token.kind ≠ .endOfInput
  previous : after.previous = (taken.getLast?.map (·.span)).getD before.previous

namespace Takes

variable {before middle after other : Cursor} {token : Token} {first second taken rest : List Token}

theorem refl (cursor : Cursor) : cursor.Takes [] cursor := ⟨rfl, nofun, rfl⟩

/-- Tokens that are taken one after the other are taken together. Readers are
followed by this step alone. -/
theorem trans (hfirst : before.Takes first middle) (hsecond : middle.Takes second after) :
    before.Takes (first ++ second) after where
  tokens := by rw [hfirst.tokens, hsecond.tokens, List.append_assoc]
  inside token htoken := by
    rcases List.mem_append.1 htoken with h | h
    · exact hfirst.inside token h
    · exact hsecond.inside token h
  previous := by
    rw [hsecond.previous, hfirst.previous, List.getLast?_append]
    cases second.getLast? <;> rfl

/-- Where a cursor gets to depends on the tokens that it takes only. -/
theorem unique (h : before.Takes taken after) (hother : before.Takes taken other) :
    after = other := by
  obtain ⟨tokens, previous⟩ := after
  obtain ⟨_, _⟩ := other
  have htokens := List.append_cancel_left (h.tokens.symm.trans hother.tokens)
  have hprevious := h.previous.trans hother.previous.symm
  simp only at htokens hprevious
  rw [htokens, hprevious]

/-- Taking two runs of tokens goes by a cursor between them, which is where the
second reader starts. -/
theorem split (h : before.Takes (first ++ second) after) :
    ∃ middle, before.Takes first middle ∧ middle.Takes second after := by
  refine ⟨⟨second ++ after.tokens, (first.getLast?.map (·.span)).getD before.previous⟩, ?_, ?_⟩
  · refine ⟨h.tokens.trans (List.append_assoc _ _ _), ?_, rfl⟩
    exact fun token htoken => h.inside token (List.mem_append_left _ htoken)
  · refine ⟨rfl, fun token htoken => h.inside token (List.mem_append_right _ htoken), ?_⟩
    rw [h.previous, List.getLast?_append]
    cases second.getLast? <;> rfl

theorem uncons (h : before.Takes (token :: rest) after) :
    ∃ middle, before.Takes [token] middle ∧ middle.Takes rest after :=
  split h

theorem length_eq (h : before.Takes taken after) :
    before.tokens.length = taken.length + after.tokens.length := by
  rw [h.tokens, List.length_append]

/-- Taking a token leaves fewer of them; all readers stop for this reason. -/
theorem shorter (h : before.Takes (token :: rest) after) :
    after.tokens.length < before.tokens.length := by
  rw [h.length_eq, List.length_cons]
  omega

theorem current (h : before.Takes (token :: rest) after) : before.current = token := by
  rw [Cursor.current, h.tokens]
  rfl

theorem kind (h : before.Takes (token :: rest) after) : before.kind = token.kind := by
  rw [Cursor.kind, h.current]

/-- The span that a reader records is that of the tokens that it takes. -/
theorem merge (h : before.Takes (token :: rest) after) :
    token.span.merge after.previous = spanOf (token :: rest) := by
  rw [h.previous, spanOf, List.getLast?_cons]
  rfl

theorem start_ne (h : before.Takes (first ++ rest) after) {kind : TokenKind}
    (hne : before.kind ≠ kind) :
    ∀ token ∈ first.head?, token.kind ≠ kind := by
  intro token htoken
  cases first with
  | nil => cases htoken
  | cons head tail =>
      cases htoken
      exact fun hsame => hne (h.kind.trans hsame)

/-- The span from the first token of a run to the last one that was taken is the
span of the run. -/
theorem merge_first (h : before.Takes taken after) (hfirst : before.Takes [token] middle)
    (hsome : taken ≠ []) :
    token.span.merge after.previous = spanOf taken := by
  cases taken with
  | nil => exact absurd rfl hsome
  | cons first rest =>
      rw [← hfirst.current, h.current]
      exact h.merge

/-- A single token decides the cursor behind it. -/
theorem next? (h : before.Takes [token] after) :
    ∃ hshorter, before.next? = some ⟨token, after, hshorter⟩ := by
  obtain ⟨tokens, previous⟩ := before
  obtain ⟨rest, last⟩ := after
  have htokens : tokens = token :: rest := h.tokens
  have hlast : last = token.span := h.previous
  subst htokens hlast
  refine ⟨Nat.lt_succ_self _, ?_⟩
  exact if_neg (h.inside token List.mem_cons_self)

/-- A token of the kind that is asked for is taken. -/
theorem take? (h : before.Takes [token] after) {kind : TokenKind} (hkind : token.kind = kind) :
    ∃ hshorter, before.take? kind = some ⟨token, after, hshorter⟩ := by
  obtain ⟨hshorter, hnext⟩ := h.next?
  refine ⟨hshorter, ?_⟩
  rw [Cursor.take?, hnext, Option.filter_some]
  exact if_pos (decide_eq_true hkind)

/-- A token that is expected is taken, so that the error for a missing one does
not arise. -/
theorem expectAs (h : before.Takes [token] after) {kind : TokenKind} (hkind : token.kind = kind)
    (expected : String) :
    ∃ hshorter, before.expectAs kind expected = .ok ⟨token, after, hshorter⟩ := by
  obtain ⟨hshorter, htake⟩ := h.take? hkind
  refine ⟨hshorter, ?_⟩
  rw [Cursor.expectAs, htake]

theorem expect (h : before.Takes [token] after) {kind : TokenKind} (hkind : token.kind = kind) :
    ∃ hshorter, before.expect kind = .ok ⟨token, after, hshorter⟩ :=
  h.expectAs hkind _

end Takes

variable {cursor after : Cursor} {kind : TokenKind}

theorem takes_of_next? {parsed : Parsed Token cursor} (h : cursor.next? = some parsed) :
    cursor.Takes [parsed.value] parsed.after := by
  obtain ⟨tokens, previous⟩ := cursor
  cases tokens with
  | nil => cases h
  | cons token rest =>
      have hsplit : (if token.kind = .endOfInput then none
          else some ⟨token, ⟨rest, token.span⟩, Nat.lt_succ_self _⟩) = some parsed := h
      split at hsplit
      · cases hsplit
      · next hinside =>
        cases hsplit
        exact ⟨rfl, fun other hother => List.mem_singleton.1 hother ▸ hinside, rfl⟩

/-- A token that was taken was the next one, is of the kind that was asked for,
and is not the end of the input. -/
theorem takes_of_take? {parsed : Parsed Token cursor} (h : cursor.take? kind = some parsed) :
    cursor.Takes [parsed.value] parsed.after ∧ parsed.value.kind = kind := by
  obtain ⟨hnext, hkind⟩ := Option.filter_eq_some_iff.1 h
  exact ⟨takes_of_next? hnext, of_decide_eq_true hkind⟩

theorem takes_of_expectAs {expected : String} {parsed : Parsed Token cursor}
    (h : cursor.expectAs kind expected = .ok parsed) :
    cursor.Takes [parsed.value] parsed.after ∧ parsed.value.kind = kind := by
  rw [expectAs] at h
  split at h
  · next htake =>
    cases h
    exact takes_of_take? htake
  · cases h

theorem takes_of_expect {parsed : Parsed Token cursor} (h : cursor.expect kind = .ok parsed) :
    cursor.Takes [parsed.value] parsed.after ∧ parsed.value.kind = kind :=
  takes_of_expectAs h

/-- A token that is not taken is of another kind. -/
theorem kind_ne_of_take? (h : cursor.take? kind = none) (hkind : kind ≠ .endOfInput) :
    cursor.kind ≠ kind := by
  intro hsame
  obtain ⟨tokens, previous⟩ := cursor
  cases tokens with
  | nil => exact hkind hsame.symm
  | cons token rest =>
      have hsame : token.kind = kind := hsame
      have htakes : Takes ⟨token :: rest, previous⟩ [token] ⟨rest, token.span⟩ :=
        ⟨rfl, fun other hother => by rw [List.mem_singleton.1 hother, hsame]; exact hkind, rfl⟩
      obtain ⟨_, htake⟩ := htakes.take? hsame
      rw [h] at htake
      cases htake

theorem take?_of_kind_ne (h : cursor.kind ≠ kind) : cursor.take? kind = none := by
  cases htake : cursor.take? kind with
  | none => rfl
  | some parsed =>
      obtain ⟨htakes, hkind⟩ := takes_of_take? htake
      exact absurd (htakes.kind.trans hkind) h

/-- A token that may be missing is eaten if it is there. -/
theorem eat_spec (cursor : Cursor) (kind : TokenKind) (hkind : kind ≠ .endOfInput) :
    ∃ taken, Optional kind taken (cursor.eat kind).value ∧
      cursor.Takes taken (cursor.eat kind).after ∧
      ((cursor.eat kind).value = false → cursor.kind ≠ kind) := by
  rw [eat]
  cases htake : cursor.take? kind with
  | none => exact ⟨[], .missing, .refl cursor, fun _ => kind_ne_of_take? htake hkind⟩
  | some parsed =>
      obtain ⟨htakes, hsame⟩ := takes_of_take? htake
      exact ⟨[parsed.value], .present hsame, htakes, nofun⟩

/-- An optional token is taken where it stands. Where it is missing, the next
token has to be of another kind. -/
theorem eat_of_optional {taken : List Token} {isPresent : Bool}
    (hoptional : Optional kind taken isPresent) (htakes : cursor.Takes taken after)
    (hnext : isPresent = false → after.kind ≠ kind) :
    ∃ hnoLonger, cursor.eat kind = ⟨isPresent, after, hnoLonger⟩ := by
  cases hoptional with
  | missing =>
      obtain rfl := htakes.unique (.refl cursor)
      exact ⟨Nat.le_refl _, by rw [eat, take?_of_kind_ne (hnext rfl)]; rfl⟩
  | present hsame =>
      obtain ⟨hshorter, htake⟩ := htakes.take? hsame
      exact ⟨Nat.le_of_lt hshorter, by rw [eat, htake]; rfl⟩

/-- What stands at a place where a token may be missing: this token, or the next
one. -/
theorem kind_of_optional {taken rest : List Token} {first : Token} {isPresent : Bool}
    (hoptional : Optional kind taken isPresent)
    (htakes : cursor.Takes (taken ++ first :: rest) after) :
    cursor.kind = kind ∨ cursor.kind = first.kind := by
  cases hoptional with
  | missing => exact .inr htakes.kind
  | present hkind => exact .inl (htakes.kind.trans hkind)

/-- What stands behind an item of a list that ends in a closing token: the mark
that was eaten, or the closing token itself. -/
theorem separated_of_eat {closing : TokenKind} {inner : List Token} {last : Token}
    (hended : ¬(!(cursor.eat kind).value && cursor.kind != closing) = true)
    (hkind : kind ≠ .endOfInput)
    (hrest : (cursor.eat kind).after.Takes (inner ++ [last]) after)
    (hstart : ∀ first ∈ inner.head?, first.kind ≠ closing) :
    ∃ ends, Separated kind ends inner ∧ cursor.Takes (ends ++ (inner ++ [last])) after ∧
      (cursor.eat kind).value = !ends.isEmpty := by
  obtain ⟨taken, hoptional, htakes, _⟩ := cursor.eat_spec kind hkind
  refine ⟨taken, ?_, htakes.trans hrest, ?_⟩
  · generalize (cursor.eat kind).value = isPresent at hoptional hended
    cases hoptional with
    | present hmark => exact .mark hmark inner
    | missing =>
        have hclosing : cursor.kind = closing := by simpa using hended
        cases inner with
        | nil => exact .last
        | cons first rest =>
            have hfirst := (htakes.trans hrest).kind
            exact absurd (hfirst.symm.trans hclosing) (hstart first rfl)
  · generalize (cursor.eat kind).value = isPresent at hoptional
    cases hoptional <;> rfl

theorem kind_of_separated {ends inner : List Token} {last : Token}
    (hends : Separated kind ends inner)
    (htakes : cursor.Takes (ends ++ (inner ++ [last])) after) :
    cursor.kind = kind ∨ cursor.kind = last.kind := by
  cases hends with
  | mark hmark _ => exact .inl (htakes.kind.trans hmark)
  | last => exact .inr htakes.kind

/-- Between two entries a separator is taken if there is one, and the result
says whether there was one. -/
theorem eat_of_separated {closing : TokenKind} {ends inner : List Token} {last : Token}
    (hends : Separated kind ends inner) (htakes : cursor.Takes (ends ++ (inner ++ [last])) after)
    (hlast : last.kind = closing) (hne : closing ≠ kind) :
    ∃ next hnoLonger, cursor.eat kind = ⟨!ends.isEmpty, next, hnoLonger⟩ ∧
      next.Takes (inner ++ [last]) after ∧
      ¬(!!ends.isEmpty && cursor.kind != closing) = true := by
  cases hends with
  | mark hmark _ =>
      obtain ⟨next, hfirst, hrest⟩ := htakes.split
      obtain ⟨hnoLonger, heat⟩ := eat_of_optional (.present hmark) hfirst (by simp)
      exact ⟨next, hnoLonger, heat, hrest, Bool.false_ne_true⟩
  | last =>
      have hclosing : cursor.kind = closing := htakes.kind.trans hlast
      obtain ⟨hnoLonger, heat⟩ := eat_of_optional .missing (.refl cursor) fun _ => by
        rw [hclosing]
        exact hne
      refine ⟨cursor, hnoLonger, heat, htakes, ?_⟩
      simp [hclosing]

end Cursor

/-- What was found is derived from the tokens that were taken. -/
def Found.Obeys {α : Type} {before : Cursor} (found : Found α before)
    (rule : List Token → α → Prop) : Prop :=
  ∃ taken, before.Takes taken found.after ∧ rule taken found.value

def Parsed.Obeys {α : Type} {before : Cursor} (parsed : Parsed α before)
    (rule : List Token → α → Prop) : Prop :=
  ∃ taken, before.Takes taken parsed.after ∧ rule taken parsed.value

section

variable {α β : Type} {before : Cursor} {parsed : Parsed α before}
  {read : (cursor : Cursor) → Except ParseError (Parsed β cursor)}

/-- What is read behind something obeys what its reader obeys. -/
theorem Parsed.obeys_of_thenRead {rule : List Token → β → Prop} {next : Parsed β before}
    (h : parsed.thenRead read = .ok next)
    (hread : ∀ {inner : Parsed β parsed.after}, read parsed.after = .ok inner → inner.Obeys rule) :
    ∃ taken, parsed.after.Takes taken next.after ∧ rule taken next.value := by
  obtain ⟨inner, hinner, h⟩ := bind_eq_ok.1 h
  cases h
  exact hread hinner

/-- Reading on behind what was read gives what the second reader gives. -/
theorem Parsed.thenRead_of_ok {inner : Parsed β parsed.after} (h : read parsed.after = .ok inner) :
    parsed.thenRead read =
      .ok ⟨inner.value, inner.after, Nat.lt_trans inner.shorter parsed.shorter⟩ :=
  bind_of_ok h

end

theorem Cursor.expectAs_obeys {cursor : Cursor} {kind : TokenKind} {expected : String}
    {parsed : Parsed Token cursor} (h : cursor.expectAs kind expected = .ok parsed) :
    parsed.Obeys fun taken token => taken = [token] ∧ token.kind = kind := by
  obtain ⟨htakes, hkind⟩ := Cursor.takes_of_expectAs h
  exact ⟨_, htakes, rfl, hkind⟩

/-- What a rule gives for the tokens before a closing one. They do not start
with another closing one, so it is looked for in front of each item. -/
inductive UpTo {α : Type} (closing : TokenKind) (rule : List Token → α → Prop) :
    List Token → α → Prop where
  | intro {inner : List Token} {last : Token} {value : α}
      (hstart : ∀ first ∈ inner.head?, first.kind ≠ closing) (hlast : last.kind = closing)
      (hrule : rule inner value) :
      UpTo closing rule (inner ++ [last]) value

theorem UpTo.nil {α : Type} {closing : TokenKind} {rule : List Token → α → Prop} {last : Token}
    {value : α} (hlast : last.kind = closing) (hrule : rule [] value) :
    UpTo closing rule [last] value :=
  @UpTo.intro _ _ _ [] _ _ nofun hlast hrule

section

variable {α β : Type} {closing : TokenKind} {rule : List Token → α → Prop}
  {whole : List Token → β → Prop} {result : β} {front : List Token} {cursor middle : Cursor}

/-- Items up to the closing token, with what stands in front of them. -/
theorem Parsed.Obeys.behind {parsed : Parsed α middle} (h : parsed.Obeys (UpTo closing rule))
    (hfront : cursor.Takes front middle) (hopen : cursor.kind ≠ closing)
    {hless : parsed.after.tokens.length < cursor.tokens.length}
    (hwhole : ∀ {inner : List Token} {last : Token},
      middle.Takes (inner ++ [last]) parsed.after → rule inner parsed.value →
        whole (front ++ inner) result) :
    (⟨result, parsed.after, hless⟩ : Parsed β cursor).Obeys (UpTo closing whole) := by
  obtain ⟨_, htakes, hinner⟩ := h
  cases hinner with
  | @intro inner last _ _ hlast hrule =>
      have hall : cursor.Takes ((front ++ inner) ++ [last]) parsed.after := by
        simpa using hfront.trans htakes
      exact ⟨_, hall, .intro (hall.start_ne hopen) hlast (hwhole htakes hrule)⟩

/-- The same behind an item and the mark that separates it from the next one. -/
theorem Parsed.Obeys.behindItem {kind : TokenKind} {parsed : Parsed α (middle.eat kind).after}
    (h : parsed.Obeys (UpTo closing rule)) (hfront : cursor.Takes front middle)
    (hopen : cursor.kind ≠ closing) (hkind : kind ≠ .endOfInput)
    (hended : ¬(!(middle.eat kind).value && middle.kind != closing) = true)
    {hless : parsed.after.tokens.length < cursor.tokens.length}
    (hwhole : ∀ {ends inner : List Token}, Separated kind ends inner →
      (middle.eat kind).value = !ends.isEmpty → rule inner parsed.value →
        whole (front ++ (ends ++ inner)) result) :
    (⟨result, parsed.after, hless⟩ : Parsed β cursor).Obeys (UpTo closing whole) := by
  obtain ⟨_, htakes, hinner⟩ := h
  cases hinner with
  | @intro inner last _ hstart hlast hrule =>
      obtain ⟨ends, hends, hseparated, heaten⟩ :=
        Cursor.separated_of_eat hended hkind htakes hstart
      have hall : cursor.Takes ((front ++ (ends ++ inner)) ++ [last]) parsed.after := by
        simpa using hfront.trans hseparated
      exact ⟨_, hall, .intro (hall.start_ne hopen) hlast (hwhole hends heaten hrule)⟩

end

end ConfigNotation
