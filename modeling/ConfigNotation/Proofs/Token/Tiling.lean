import Mathlib.Algebra.Group.Nat.Defs
import ConfigNotation.Proofs.Text.Lines
import ConfigNotation.Proofs.Token.Longest
import ConfigNotation.Proofs.Token.Strings

/-!
How tokens lie in a text. A scan goes over blanks one by one and over each token as a
whole; the tokens of a text are what it has gone over, and it fails at a character that
is no blank and starts no match.
-/

namespace ConfigNotation

open Text Pattern

/-- The places of a text that a scan gets to, given by what stands before
them. -/
inductive Reached (text : List Char) : List Char → Prop where
  | start : Reached text []
  | blank {before after : List Char} {c : Char} (hbefore : Reached text before)
      (htext : text = before ++ c :: after) (hblank : isBlank c = true) :
      Reached text (before ++ [c])
  | token {before rest after : List Char} {c : Char} {kind : TokenKind}
      (hbefore : Reached text before) (htext : text = before ++ (c :: rest ++ after))
      (hblank : isBlank c = false)
      (hchosen : IsChosen before.getLast? (c :: rest ++ after) kind (rest.length + 1)) :
      Reached text (before ++ c :: rest)

/-- A token that a scan cuts off at a place: the match that is chosen there. -/
structure CutAt (text : List Char) (token : Token) (before after : List Char) : Prop where
  reached : Reached text before
  covers : text = before ++ (token.text.toList ++ after)
  nonempty : token.text.toList ≠ []
  chosen : IsChosen before.getLast? (token.text.toList ++ after) token.kind
    token.text.toList.length
  span : token.span = ⟨byteSize before, byteSize (before ++ token.text.toList)⟩
  position : token.position = Position.start.after before

/-- A character that stops a scan: no blank, and no pattern matches there. -/
structure StopsAt (text before : List Char) (c : Char) (after : List Char) : Prop where
  reached : Reached text before
  covers : text = before ++ c :: after
  noBlank : isBlank c = false
  noMatch : ∀ pattern ∈ all, pattern.length? before.getLast? (c :: after) = none

/-- The end of a text as a token with the exact offset. -/
def endOf (text : List Char) : Token :=
  ⟨.endOfInput, "", ⟨byteSize text, byteSize text⟩, Position.start.after text⟩

/-- Tokens that cover a text from a place on, up to blanks. -/
structure TilesBehind (text front : List Char) (tokens : List Token) : Prop where
  behind : ∀ token ∈ tokens, byteSize front ≤ token.span.start
  ordered : tokens.Pairwise fun first second =>
    first.span.start < second.span.start ∧ first.span.stop ≤ second.span.start
  cut : ∀ token ∈ tokens, token.kind ≠ .endOfInput → ∃ before after, CutAt text token before after
  covered : ∀ before c after, text = before ++ c :: after → front.length ≤ before.length →
    (∀ token ∈ tokens, byteSize before < token.span.start ∨ token.span.stop ≤ byteSize before) →
    isBlank c = true
  ended : ∃ others, tokens = others ++ [endOf text] ∧
    ∀ token ∈ others, token.kind ≠ .endOfInput

/-- Tokens that cover a whole text, up to blanks: their spans lie one behind the
other on boundaries between characters, each is cut off by the longest match,
and the last one is the end of the text. -/
def Tiles (text : List Char) (tokens : List Token) : Prop := TilesBehind text [] tokens

def tokensBehind (before rest : List Char) : Except LexError (List Token) :=
  tokensFrom (byteSize before) (Position.start.after before) before.getLast? rest

theorem Span.ofOffsets_eq {start stop : Nat} (hstart : start ≤ stop) (hstop : stop ≤ limit) :
    ofOffsets start stop = ⟨start, stop⟩ := by
  rw [ofOffsets, Nat.min_eq_left (Nat.le_trans hstart hstop), Nat.min_eq_left hstop]

theorem tokensBehind_nil (before : List Char) :
    tokensBehind before [] =
      .ok [.endAt (byteSize before) (Position.start.after before)] := by
  rw [tokensBehind, tokensFrom]

/-- A blank is passed over, and counts as part of what stands in front of the
next token. -/
theorem tokensBehind_blank {c : Char} (h : isBlank c = true) (before rest : List Char) :
    tokensBehind before (c :: rest) = tokensBehind (before ++ [c]) rest := by
  rw [tokensBehind, tokensFrom, if_pos h, tokensBehind]
  simp

def tokenAt (before : List Char) (kind : TokenKind) (lexeme : List Char) : Token :=
  ⟨kind, String.ofList lexeme, .ofOffsets (byteSize before) (byteSize (before ++ lexeme)),
    Position.start.after before⟩

/-- The chosen match is cut off, and the tokens of what stands behind it
follow. -/
theorem tokensBehind_token {before rest after : List Char} {c : Char} {kind : TokenKind}
    (hblank : isBlank c = false)
    (hchosen : IsChosen before.getLast? (c :: rest ++ after) kind (rest.length + 1)) :
    tokensBehind before (c :: rest ++ after) =
      (tokenAt before kind (c :: rest) :: ·) <$> tokensBehind (before ++ c :: rest) after := by
  rw [List.cons_append] at hchosen ⊢
  rw [tokensBehind, tokensFrom, if_neg (by simp [hblank]), longestMatch_eq_some_iff.2 hchosen]
  dsimp only
  rw [Nat.add_sub_cancel, List.take_left, List.drop_left, tokensBehind]
  have hlast : (before ++ c :: rest).getLast? = (c :: rest).getLast? := by
    rw [List.getLast?_append, List.getLast?_cons]
    rfl
  rw [hlast, Position.after_append, tokenAt, byteSize_append]
  exact bind_pure_comp _ _

/-- Where no pattern matches, scanning stops with the error of that character at
its place. -/
theorem tokensBehind_stop {before after : List Char} {c : Char} (hblank : isBlank c = false)
    (hnone : ∀ pattern ∈ all, pattern.length? before.getLast? (c :: after) = none) :
    tokensBehind before (c :: after) =
      .error ⟨.ofUncovered c, .ofOffsets (byteSize before) (byteSize before + c.utf8Size),
        Position.start.after before⟩ := by
  rw [tokensBehind, tokensFrom, if_neg (by simp [hblank]), longestMatch_eq_none_iff.2 hnone]

/-- At the first character of a text that is no blank a match is chosen, or none
is there. -/
theorem chosen_or_none (previous : Option Char) (c : Char) (rest : List Char) :
    (∃ kind lexeme after, rest = lexeme ++ after ∧
      IsChosen previous (c :: lexeme ++ after) kind (lexeme.length + 1)) ∨
    ∀ pattern ∈ all, pattern.length? previous (c :: rest) = none := by
  cases hmatch : longestMatch previous (c :: rest) with
  | none => exact .inr (longestMatch_eq_none_iff.1 hmatch)
  | some found =>
      obtain ⟨kind, size⟩ := found
      have hchosen := longestMatch_eq_some_iff.1 hmatch
      obtain ⟨hpositive, hsize⟩ := hchosen.coversSome
      obtain ⟨size, rfl⟩ := Nat.exists_eq_add_one.2 hpositive
      rw [List.length_cons] at hsize
      refine .inl ⟨kind, rest.take size, rest.drop size, (List.take_append_drop size rest).symm, ?_⟩
      rw [List.cons_append, List.take_append_drop, List.length_take, Nat.min_eq_left (by omega)]
      exact hchosen

theorem kind_ne_endOfInput {previous : Option Char} {text : List Char} {kind : TokenKind}
    {size : Nat} (h : IsChosen previous text kind size) :
    kind ≠ .endOfInput := by
  have hall : ∀ pattern ∈ all, pattern.kind ≠ .endOfInput := by decide
  obtain ⟨before, pattern, after, hsplit, rfl, _⟩ := h
  exact hall pattern (by rw [hsplit]; simp)

/-- Of two first parts of a text the longer one has more bytes. -/
theorem byteSize_lt_of_length_lt {first second more others : List Char}
    (h : first ++ more = second ++ others) (hlength : first.length < second.length) :
    byteSize first < byteSize second := by
  obtain ⟨between, hsplit⟩ := List.prefix_of_prefix_length_le (List.prefix_append first more)
    (h ▸ List.prefix_append second others) (Nat.le_of_lt hlength)
  rw [← hsplit, byteSize_append]
  cases between with
  | nil =>
      rw [List.append_nil] at hsplit
      rw [hsplit] at hlength
      exact absurd hlength (Nat.lt_irrefl _)
  | cons c between =>
      have hsome := c.utf8Size_pos
      rw [byteSize_cons]
      omega

theorem byteSize_le_of_length_le {first second more others : List Char}
    (h : first ++ more = second ++ others) (hlength : first.length ≤ second.length) :
    byteSize first ≤ byteSize second := by
  rcases Nat.lt_or_eq_of_le hlength with hlt | heq
  · exact Nat.le_of_lt (byteSize_lt_of_length_lt h hlt)
  · exact Nat.le_of_eq (congrArg byteSize (List.append_inj h heq).1)

namespace TilesBehind

variable {text front : List Char} {tokens : List Token}

theorem atEnd (text : List Char) : TilesBehind text text [endOf text] where
  behind token htoken := by
    rw [List.mem_singleton.1 htoken]
    exact Nat.le_refl _
  ordered := List.pairwise_singleton _ _
  cut token htoken hkind := by
    rw [List.mem_singleton.1 htoken] at hkind
    exact absurd rfl hkind
  covered before c after htext hlength := by
    rw [htext, List.length_append, List.length_cons] at hlength
    omega
  ended := ⟨[], rfl, nofun⟩

/-- Tokens that cover what stands behind a blank cover the text with the blank
as well. -/
theorem blank {c : Char} {rest : List Char} (htext : text = front ++ c :: rest)
    (hblank : isBlank c = true) (h : TilesBehind text (front ++ [c]) tokens) :
    TilesBehind text front tokens where
  behind token htoken := by
    have hbehind := h.behind token htoken
    rw [byteSize_append] at hbehind
    omega
  ordered := h.ordered
  cut := h.cut
  covered before d after hsplit hlength hfree := by
    rcases Nat.lt_or_eq_of_le hlength with hlt | heq
    · refine h.covered before d after hsplit ?_ hfree
      rw [List.length_append, List.length_singleton]
      exact hlt
    · have hsame := (List.append_inj (htext.symm.trans hsplit) heq).2
      rw [← (List.cons.inj hsame).1]
      exact hblank
  ended := h.ended

/-- A token that is cut off in front of a covered rest covers the text together
with it. Maximality and the choice on ties are part of what is cut off. -/
theorem token {token : Token} {after : List Char} (hcut : CutAt text token front after)
    (h : TilesBehind text (front ++ token.text.toList) tokens) :
    TilesBehind text front (token :: tokens) where
  behind other hother := by
    rcases List.mem_cons.1 hother with rfl | hother
    · exact Nat.le_of_eq (congrArg Span.start hcut.span).symm
    · have hbehind := h.behind other hother
      rw [byteSize_append] at hbehind
      omega
  ordered := by
    refine List.pairwise_cons.2 ⟨?_, h.ordered⟩
    intro other hother
    have hbehind := h.behind other hother
    have hsome : byteSize front < byteSize (front ++ token.text.toList) := by
      have hpositive := List.length_pos_iff.2 hcut.nonempty
      apply byteSize_lt_of_length_lt (List.append_nil (front ++ token.text.toList)).symm
      rw [List.length_append]
      omega
    rw [hcut.span]
    exact ⟨Nat.lt_of_lt_of_le hsome hbehind, hbehind⟩
  cut other hother hkind := by
    rcases List.mem_cons.1 hother with rfl | hother
    · exact ⟨front, after, hcut⟩
    · exact h.cut other hother hkind
  covered before c rest hsplit hlength hfree := by
    obtain ⟨hthis, hothers⟩ := List.forall_mem_cons.1 hfree
    rcases Nat.lt_or_ge before.length (front ++ token.text.toList).length with hinside | hbehind
    · have hcovers := hcut.covers
      rw [← List.append_assoc] at hcovers
      have hstart := byteSize_le_of_length_le (hcut.covers.symm.trans hsplit) hlength
      have hstop := byteSize_lt_of_length_lt (hsplit.symm.trans hcovers) hinside
      rw [hcut.span] at hthis
      simp only at hthis
      omega
    · exact h.covered before c rest hsplit hbehind hothers
  ended := by
    obtain ⟨others, htokens, hothers⟩ := h.ended
    refine ⟨token :: others, by rw [htokens]; rfl, ?_⟩
    exact List.forall_mem_cons.2 ⟨kind_ne_endOfInput hcut.chosen, hothers⟩

end TilesBehind

section

variable {text : List Char} (hlimit : byteSize text ≤ Span.limit)

include hlimit

/-- The token of a match is cut off where it stands. -/
theorem cutAt_tokenAt {before rest after : List Char} {c : Char} {kind : TokenKind}
    (hreached : Reached text before) (htext : text = before ++ (c :: rest ++ after))
    (hchosen : IsChosen before.getLast? (c :: rest ++ after) kind (rest.length + 1)) :
    CutAt text (tokenAt before kind (c :: rest)) before after := by
  have hlexeme : (tokenAt before kind (c :: rest)).text.toList = c :: rest :=
    String.toList_ofList
  constructor
  · exact hreached
  · rw [hlexeme]
    exact htext
  · rw [hlexeme]
    exact nofun
  · rw [hlexeme]
    exact hchosen
  · rw [hlexeme, tokenAt]
    apply Span.ofOffsets_eq
    · rw [byteSize_append]
      exact Nat.le_add_right _ _
    · rw [htext, ← List.append_assoc, byteSize_append] at hlimit
      omega
  · rfl

/-- From a place that a scan gets to, the rest of a text is tiled, or the scan
stops. -/
theorem tokensBehind_spec (before rest : List Char) (htext : text = before ++ rest)
    (hreached : Reached text before) :
    match tokensBehind before rest with
    | .ok tokens => TilesBehind text before tokens
    | .error error => ∃ front c after, StopsAt text front c after ∧
        error = ⟨.ofUncovered c, ⟨byteSize front, byteSize front + c.utf8Size⟩,
          Position.start.after front⟩ := by
  cases rest with
  | nil =>
      rw [List.append_nil] at htext
      subst htext
      rw [tokensBehind_nil, Token.endAt, Span.ofOffsets_eq (Nat.le_refl _) hlimit]
      exact .atEnd text
  | cons c rest =>
      cases hblank : isBlank c with
      | true =>
          have hnext : Reached text (before ++ [c]) := hreached.blank htext hblank
          have hrest := tokensBehind_spec (before ++ [c]) rest (by simp [htext]) hnext
          rw [tokensBehind_blank hblank]
          cases hresult : tokensBehind (before ++ [c]) rest with
          | ok tokens =>
              rw [hresult] at hrest
              exact .blank htext hblank hrest
          | error error =>
              rw [hresult] at hrest
              exact hrest
      | false =>
          rcases chosen_or_none before.getLast? c rest with
            ⟨kind, lexeme, after, rfl, hchosen⟩ | hnone
          · have hnext : Reached text (before ++ c :: lexeme) :=
              hreached.token htext hblank hchosen
            have hrest := tokensBehind_spec (before ++ c :: lexeme) after (by simp [htext]) hnext
            rw [← List.cons_append, tokensBehind_token hblank hchosen]
            cases hresult : tokensBehind (before ++ c :: lexeme) after with
            | ok tokens =>
                rw [hresult] at hrest
                refine .token (cutAt_tokenAt hlimit hreached htext hchosen) ?_
                rw [tokenAt, String.toList_ofList]
                exact hrest
            | error error =>
                rw [hresult] at hrest
                exact hrest
          · rw [tokensBehind_stop hblank hnone, Span.ofOffsets_eq (Nat.le_add_right _ _) ?_]
            · exact ⟨before, c, rest, ⟨hreached, htext, hblank, hnone⟩, rfl⟩
            · rw [htext, byteSize_append, byteSize_cons] at hlimit
              omega
termination_by rest.length

end

/-- A scan that fails at a place that it gets to fails for the whole text. -/
theorem Reached.tokensBehind_error {text before : List Char} (h : Reached text before)
    {after : List Char} (htext : text = before ++ after) {error : LexError}
    (herror : tokensBehind before after = .error error) :
    tokensBehind [] text = .error error := by
  induction h generalizing after with
  | start => rwa [htext]
  | blank hbefore hsplit hblank ih =>
      refine ih hsplit ?_
      rw [tokensBehind_blank hblank]
      rw [hsplit, List.append_assoc] at htext
      rwa [(List.cons.inj (List.append_cancel_left htext)).2]
  | token hbefore hsplit hblank hchosen ih =>
      refine ih hsplit ?_
      rw [tokensBehind_token hblank hchosen]
      rw [hsplit, List.append_assoc] at htext
      rw [List.append_cancel_left (List.append_cancel_left htext), herror]
      rfl

namespace Text

theorem byteSize_normalizeNewlines_le (text : List Char) :
    byteSize (normalizeNewlines text) ≤ byteSize text := by
  fun_induction normalizeNewlines text with
  | case1 => exact Nat.le_refl _
  | case2 rest ih =>
      rw [byteSize_cons, byteSize_cons, byteSize_cons]
      omega
  | case3 c rest _ ih =>
      have hwritten : (if c = '\r' then '\n' else c).utf8Size ≤ c.utf8Size := by
        split
        · exact c.utf8Size_pos
        · exact Nat.le_refl _
      rw [byteSize_cons, byteSize_cons]
      omega

theorem CommentMode.utf8Size_step_le (mode : CommentMode) (previous : Option Char) (offset : Nat)
    (c : Char) :
    (mode.step previous offset c).2.utf8Size ≤ c.utf8Size := by
  have hone : 1 ≤ c.utf8Size := c.utf8Size_pos
  have hblanked : (blanked c).utf8Size ≤ c.utf8Size := by
    unfold blanked
    split <;> exact hone
  cases mode with
  | code =>
      unfold step
      dsimp only
      split
      · exact Nat.le_refl _
      · split
        · exact hone
        · split
          · exact hone
          · exact Nat.le_refl _
  | string escaped =>
      have hsame : (step (.string escaped) previous offset c).2 = c := by
        unfold step
        dsimp only
        split
        · rfl
        · split
          · rfl
          · split <;> rfl
      exact Nat.le_of_eq (congrArg Char.utf8Size hsame)
  | line =>
      unfold step
      dsimp only
      split
      · exact Nat.le_refl _
      · exact hone
  | block opening =>
      unfold step
      dsimp only
      split
      · exact hone
      · exact hblanked

/-- Blanking never makes a text longer in bytes; a wide character of a comment
becomes one blank. -/
theorem byteSize_blankFrom_le (mode : CommentMode) (previous : Option Char) (offset : Nat)
    (text : List Char) :
    byteSize (blankFrom mode previous offset text).1 ≤ byteSize text := by
  induction text generalizing mode previous offset with
  | nil => exact Nat.le_refl _
  | cons c rest ih =>
      rw [blankFrom_cons, byteSize_cons, byteSize_cons]
      exact Nat.add_le_add (mode.utf8Size_step_le previous offset c) (ih _ _ _)

/-- A text without comments has no more bytes than the source. -/
theorem byteSize_stripComments_le {source text : List Char}
    (h : stripComments source = .ok text) :
    byteSize text ≤ byteSize source := by
  rw [← stripComments_eq_ok h]
  exact Nat.le_trans (byteSize_blankFrom_le _ _ _ _) (byteSize_normalizeNewlines_le source)

end Text

/-- Cutting a source means to scan what is left of it without comments. -/
theorem lex_eq {source : String} {text : List Char}
    (hstrip : stripComments source.toList = .ok text) :
    lex source = (fun tokens => ⟨String.ofList text, tokens⟩) <$> tokensBehind [] text := by
  rw [lex, hstrip]
  exact (map_eq_pure_bind _ (tokensBehind [] text)).symm

def Token.whole (kind : TokenKind) (text : List Char) : Token :=
  ⟨kind, String.ofList text, .ofOffsets 0 (byteSize text), .start⟩

/-- A text that is one token, with the end behind it. -/
def Lexed.single (kind : TokenKind) (text : List Char) : Lexed where
  text := String.ofList text
  tokens := [.whole kind text, .endAt (byteSize text) (Position.start.after text)]

/-- A text that is one match as a whole is a source with that one token, if
nothing of it is blanked. -/
theorem lex_single {c : Char} {rest : List Char} {kind : TokenKind} (hblank : isBlank c = false)
    (hkept : stripComments (c :: rest) = .ok (c :: rest))
    (hchosen : IsChosen none (c :: rest) kind (c :: rest).length) :
    lex (String.ofList (c :: rest)) = .ok (.single kind (c :: rest)) := by
  have htoken : tokensBehind [] (c :: rest ++ []) =
      (tokenAt [] kind (c :: rest) :: ·) <$> tokensBehind ([] ++ c :: rest) [] :=
    tokensBehind_token hblank (by rwa [List.append_nil])
  rw [List.append_nil, tokensBehind_nil] at htoken
  rw [lex_eq (by rwa [String.toList_ofList]), htoken]
  rfl

theorem Text.byteSize_le_limit {source : String} {text : List Char}
    (hsize : byteSize source.toList < 2 ^ 32) (hstrip : stripComments source.toList = .ok text) :
    byteSize text ≤ Span.limit := by
  have hless := byteSize_stripComments_le hstrip
  rw [Span.limit]
  omega

/-- The tokens of a source tile its text without comments. -/
theorem tiles_of_lex {source : String} {lexed : Lexed} (hsize : byteSize source.toList < 2 ^ 32)
    (hlex : lex source = .ok lexed) :
    stripComments source.toList = .ok lexed.text.toList ∧
      Tiles lexed.text.toList lexed.tokens := by
  cases hstrip : stripComments source.toList with
  | error error =>
      rw [lex, hstrip] at hlex
      cases hlex
  | ok text =>
      have hspec := tokensBehind_spec (byteSize_le_limit hsize hstrip) [] text rfl .start
      rw [lex_eq hstrip] at hlex
      cases hresult : tokensBehind [] text with
      | error error =>
          rw [hresult] at hlex
          cases hlex
      | ok tokens =>
          rw [hresult] at hlex hspec
          cases hlex
          rw [String.toList_ofList]
          exact ⟨rfl, hspec⟩

/-- A token has a character of the text, so that fewer stand before it than in
the text. -/
theorem CutAt.length_lt {text before after : List Char} {token : Token}
    (h : CutAt text token before after) :
    before.length < text.length := by
  have hsome := List.length_pos_iff.2 h.nonempty
  have hlength := congrArg List.length h.covers
  rw [List.length_append, List.length_append] at hlength
  omega

/-- A token can be cut out of its text again by its span, as long as offsets are
not held to the limit. -/
theorem Tiles.eq_ofSpan {text : List Char} {tokens : List Token} (h : Tiles text tokens)
    {token : Token} (htoken : token ∈ tokens) :
    token = .ofSpan text token.kind token.span token.position := by
  by_cases hkind : token.kind = .endOfInput
  · obtain ⟨others, rfl, hothers⟩ := h.ended
    rcases List.mem_append.1 htoken with hother | hlast
    · exact absurd hkind (hothers token hother)
    · have hslice := slice?_append text [] []
      simp only [List.append_nil] at hslice
      rw [List.mem_singleton.1 hlast, endOf, Token.ofSpan]
      dsimp only
      rw [hslice]
      rfl
  · obtain ⟨before, after, hcut⟩ := h.cut token htoken hkind
    have hslice := slice?_append before token.text.toList after
    rw [← hcut.covers] at hslice
    rw [Token.ofSpan, hcut.span, hslice, Option.getD_some, String.ofList_toList, ← hcut.span]

/-- Tokens are kept with their texts, and their lines and columns are counted
without a bound. For a source of less than four gibibytes spans and counters of
32 bits tell the same: every token is what its span covers of the text, and its
line and column are recorded as they are. The end is left out, as it may stand
one column behind the last one that is recorded. -/
theorem tokens_fit_32_bits {source : String} {lexed : Lexed}
    (hsize : byteSize source.toList < 2 ^ 32) (hlex : lex source = .ok lexed) :
    ∀ token ∈ lexed.tokens,
      token = .ofSpan lexed.text.toList token.kind token.span token.position ∧
        (token.kind ≠ .endOfInput → token.position.recorded = token.position) := by
  obtain ⟨hstrip, htiles⟩ := tiles_of_lex hsize hlex
  intro token htoken
  refine ⟨htiles.eq_ofSpan htoken, fun hinside => ?_⟩
  obtain ⟨before, after, hcut⟩ := htiles.cut token htoken hinside
  have hbefore : before.length < Span.limit :=
    Nat.lt_of_lt_of_le hcut.length_lt
      (Nat.le_trans (length_le_byteSize _) (byteSize_le_limit hsize hstrip))
  rw [hcut.position, Position.recorded_start_after hbefore]

/-- A source whose comments are closed fails at a character that stops the
scan. -/
theorem stopsAt_of_lex_error {source : String} {text : List Char} {error : LexError}
    (hsize : byteSize source.toList < 2 ^ 32) (hstrip : stripComments source.toList = .ok text)
    (hlex : lex source = .error error) :
    ∃ before c after, StopsAt text before c after ∧
      error = ⟨.ofUncovered c, ⟨byteSize before, byteSize before + c.utf8Size⟩,
        Position.start.after before⟩ := by
  have hspec := tokensBehind_spec (byteSize_le_limit hsize hstrip) [] text rfl .start
  rw [lex_eq hstrip] at hlex
  cases hresult : tokensBehind [] text with
  | error found =>
      rw [hresult] at hlex hspec
      cases hlex
      exact hspec
  | ok tokens =>
      rw [hresult] at hlex
      cases hlex

/-- The tokens of a source tile its text without comments. Behind blanks and
tokens that were cut off in this way, the first character that is no blank and
starts no match is the error, and there is no other one. -/
theorem lex_tiles_or_stops (source : String) (hsize : byteSize source.toList < 2 ^ 32) :
    (∀ lexed, lex source = .ok lexed →
      stripComments source.toList = .ok lexed.text.toList ∧
        Tiles lexed.text.toList lexed.tokens) ∧
    ∀ text, stripComments source.toList = .ok text → ∀ error, lex source = .error error ↔
      ∃ before c after, StopsAt text before c after ∧
        error = ⟨if c = '"' then .unterminatedString else .unexpectedCharacter c,
          ⟨byteSize before, byteSize before + c.utf8Size⟩, Position.start.after before⟩ := by
  refine ⟨fun lexed => tiles_of_lex hsize, fun text hstrip error => ?_⟩
  constructor
  · exact stopsAt_of_lex_error hsize hstrip
  · rintro ⟨before, c, after, hstops, rfl⟩
    have hbound := byteSize_le_limit hsize hstrip
    rw [hstops.covers, byteSize_append, byteSize_cons] at hbound
    have hthere := tokensBehind_stop hstops.noBlank hstops.noMatch
    rw [Span.ofOffsets_eq (Nat.le_add_right _ _) (by omega)] at hthere
    rw [lex_eq hstrip, hstops.reached.tokensBehind_error hstops.covers hthere]
    rfl

/-- Two tokens with a comment between them, and no character of one byte only. -/
def spaced : String := "\"é\" 'ü';"

/-- A quote that no string ends. -/
def unended : String := "\"é\" \"ü;"

theorem lex_tiles_or_stops_spaced :
    byteSize spaced.toList < 2 ^ 32 ∧ byteSize unended.toList < 2 ^ 32 ∧
      (∃ lexed, lex spaced = .ok lexed ∧ Tiles lexed.text.toList lexed.tokens) ∧
      ∃ error, lex unended = .error error ∧ error.fault = .unterminatedString ∧
        ∃ before c after, StopsAt unended.toList before c after ∧
          error.span = ⟨byteSize before, byteSize before + c.utf8Size⟩ := by
  have hspaced : byteSize spaced.toList < 2 ^ 32 := by decide
  have hunended : byteSize unended.toList < 2 ^ 32 := by decide
  refine ⟨hspaced, hunended, ?_, ?_⟩
  · have hlex : lex spaced = .ok ⟨"\"é\"    ;", [⟨.string, "\"é\"", ⟨0, 4⟩, ⟨1, 1⟩⟩,
        ⟨.semicolon, ";", ⟨8, 9⟩, ⟨1, 8⟩⟩, ⟨.endOfInput, "", ⟨9, 9⟩, ⟨1, 9⟩⟩]⟩ :=
      lex_eq_ok (by decide +kernel)
    exact ⟨_, hlex, ((lex_tiles_or_stops spaced hspaced).1 _ hlex).2⟩
  · have hstrip : stripComments unended.toList = .ok unended.toList := by rfl
    have hfault : (match lex unended with
        | .ok _ => none
        | .error error => some error.fault) = some .unterminatedString := by
      decide +kernel
    cases hlex : lex unended with
    | ok lexed =>
        rw [hlex] at hfault
        cases hfault
    | error error =>
        rw [hlex] at hfault
        obtain ⟨before, c, after, hstops, herror⟩ :=
          ((lex_tiles_or_stops unended hunended).2 _ hstrip error).1 hlex
        exact ⟨error, rfl, Option.some.inj hfault, before, c, after, hstops, by rw [herror]⟩

end ConfigNotation
