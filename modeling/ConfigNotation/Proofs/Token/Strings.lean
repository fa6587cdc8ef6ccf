import Mathlib.Tactic.ByContra
import ConfigNotation.Proofs.Text.Comment
import ConfigNotation.Proofs.Token.Match
import ConfigNotation.Token.Lexer

/-!
Strings as the blanking of comments sees them and as tokens. Both agree on a string that
is opened outside of all others; a quote in another token can put them out of step.
-/

namespace ConfigNotation

open Text Pattern

namespace Pattern

/-- A text that is read inside a string without closing it. -/
inductive StaysOpen : List Char → Prop where
  | nil : StaysOpen []
  | plain {c : Char} {rest : List Char} (hplain : IsPlain c) (hrest : StaysOpen rest) :
      StaysOpen (c :: rest)
  | pair {c : Char} {rest : List Char} (hbreak : isLineBreak c = false)
      (hrest : StaysOpen rest) :
      StaysOpen ('\\' :: c :: rest)

theorem stringRest?_cons_plain {c : Char} (rest : List Char) (h : IsPlain c) :
    stringRest? (c :: rest) = (stringRest? rest).map (· + 1) := by
  obtain ⟨hquote, hbackslash⟩ := h
  rw [stringRest?.eq_def (c :: rest)]
  split
  · next heq => cases heq
  · next heq => cases heq; exact absurd rfl hquote
  · next heq => cases heq; exact absurd rfl hbackslash
  · next heq => cases heq; exact absurd rfl hbackslash
  · next heq => cases heq; rfl

/-- Inside a string, a text without a closing quote is passed over as a whole:
the match goes on behind it. -/
theorem StaysOpen.stringRest? {text : List Char} (h : StaysOpen text) (rest : List Char) :
    stringRest? (text ++ rest) = (Pattern.stringRest? rest).map (· + text.length) := by
  induction h with
  | nil => simp
  | plain hplain _ ih =>
      rw [List.cons_append, stringRest?_cons_plain _ hplain, ih, Option.map_map]
      rfl
  | pair hbreak _ ih =>
      rw [List.cons_append, List.cons_append, Pattern.stringRest?, hbreak, ih, if_neg nofun,
        Option.map_map]
      rfl

theorem quoteStep_plain {c : Char} (state : Option Bool) (hstate : state ≠ some true)
    (h : IsPlain c) :
    quoteStep state c = state := by
  rcases state with _ | _ | _
  · simp [quoteStep, h.1]
  · simp [quoteStep, h.1, h.2]
  · exact absurd rfl hstate

/-- Plain characters leave the state of a string as it is, unless the next
character is protected by a backslash. -/
theorem quoteState_plain {text : List Char} {state : Option Bool} (hstate : state ≠ some true)
    (h : ∀ c ∈ text, IsPlain c) :
    quoteState state text = state := by
  induction text with
  | nil => rfl
  | cons c rest ih =>
      rw [List.forall_mem_cons] at h
      rw [quoteState_cons, quoteStep_plain state hstate h.1, ih h.2]

theorem quoteState_none {text : List Char} (h : '"' ∉ text) : quoteState none text = none := by
  induction text with
  | nil => rfl
  | cons c rest ih =>
      rw [List.mem_cons, not_or] at h
      rw [quoteState_cons, quoteStep, if_neg (Ne.symm h.1), ih h.2]

theorem StaysOpen.quoteState {text : List Char} (h : StaysOpen text) :
    quoteState (some false) text = some false := by
  induction h with
  | nil => rfl
  | plain hplain _ ih =>
      rw [quoteState_cons, quoteStep_plain _ (by simp) hplain, ih]
  | pair _ _ ih => exact ih

theorem StaysOpen.of_plain {text : List Char} (h : ∀ c ∈ text, IsPlain c) : StaysOpen text := by
  induction text with
  | nil => exact .nil
  | cons c rest ih =>
      rw [List.forall_mem_cons] at h
      exact .plain h.1 (ih h.2)

theorem StaysOpen.append {first second : List Char} (hfirst : StaysOpen first)
    (hsecond : StaysOpen second) :
    StaysOpen (first ++ second) := by
  induction hfirst with
  | nil => exact hsecond
  | plain hplain _ ih => exact .plain hplain ih
  | pair hbreak _ ih => exact .pair hbreak ih

/-- The rest of a string closes it with its last character. -/
theorem stringRest?_closes {text : List Char} {size : Nat} (h : stringRest? text = some size) :
    quoteState (some false) (text.take size) = none ∧ (text.take size).getLast? = some '"' := by
  fun_induction stringRest? text generalizing size with
  | case1 => cases h
  | case2 rest => cases h; exact ⟨rfl, rfl⟩
  | case3 => cases h
  | case4 => cases h
  | case5 c rest hbreak ih =>
      obtain ⟨inner, hinner, rfl⟩ := Option.map_eq_some_iff.1 h
      obtain ⟨hstate, hlast⟩ := ih hinner
      refine ⟨hstate, ?_⟩
      rw [List.take_succ_cons, List.take_succ_cons, List.getLast?_cons, List.getLast?_cons, hlast]
      rfl
  | case6 c rest hquote hend hpair ih =>
      obtain ⟨inner, hinner, rfl⟩ := Option.map_eq_some_iff.1 h
      obtain ⟨hstate, hlast⟩ := ih hinner
      have hbackslash : c ≠ '\\' := by
        rintro rfl
        cases rest with
        | nil => exact hend rfl rfl
        | cons d rest => exact hpair d rest rfl rfl
      have hplain : IsPlain c := ⟨hquote, hbackslash⟩
      rw [List.take_succ_cons, quoteState_cons, quoteStep_plain _ (by simp) hplain,
        List.getLast?_cons, hlast]
      exact ⟨hstate, rfl⟩

/-- What stands in the rest of a string before its closing quote does not close
it. -/
theorem stringRest?_staysOpen {text : List Char} {size : Nat} (h : stringRest? text = some size) :
    ∃ body, text.take size = body ++ ['"'] ∧ StaysOpen body := by
  fun_induction stringRest? text generalizing size with
  | case1 => cases h
  | case2 rest => cases h; exact ⟨[], rfl, .nil⟩
  | case3 => cases h
  | case4 => cases h
  | case5 c rest hbreak ih =>
      obtain ⟨inner, hinner, rfl⟩ := Option.map_eq_some_iff.1 h
      obtain ⟨body, hbody, hopen⟩ := ih hinner
      refine ⟨'\\' :: c :: body, ?_, .pair (by simpa using hbreak) hopen⟩
      rw [List.take_succ_cons, List.take_succ_cons, hbody]
      rfl
  | case6 c rest hquote hend hpair ih =>
      obtain ⟨inner, hinner, rfl⟩ := Option.map_eq_some_iff.1 h
      obtain ⟨body, hbody, hopen⟩ := ih hinner
      have hbackslash : c ≠ '\\' := by
        rintro rfl
        cases rest with
        | nil => exact hend rfl rfl
        | cons d rest => exact hpair d rest rfl rfl
      refine ⟨c :: body, ?_, .plain ⟨hquote, hbackslash⟩ hopen⟩
      rw [List.take_succ_cons, hbody]
      rfl

/-- The rest of a regular expression ends in its slash. Without quotes in it it
can also be read inside a string. -/
theorem regExpRest?_spec {text : List Char} {size : Nat} (h : regExpRest? text = some size) :
    (text.take size).getLast? = some '/' ∧
      ('"' ∉ text.take size → StaysOpen (text.take size)) := by
  fun_induction regExpRest? text generalizing size with
  | case1 => cases h
  | case2 rest => cases h; exact ⟨rfl, fun _ => .plain (by decide) .nil⟩
  | case3 => cases h
  | case4 => cases h
  | case5 c rest hbreak ih =>
      obtain ⟨inner, hinner, rfl⟩ := Option.map_eq_some_iff.1 h
      obtain ⟨hlast, hopen⟩ := ih hinner
      rw [List.take_succ_cons, List.take_succ_cons, List.getLast?_cons, List.getLast?_cons, hlast]
      refine ⟨rfl, fun hquote => .pair (by simpa using hbreak) (hopen fun hmember => hquote ?_)⟩
      exact List.mem_cons_of_mem _ (List.mem_cons_of_mem _ hmember)
  | case6 => cases h
  | case7 c rest hslash hend hpair hbreak ih =>
      obtain ⟨inner, hinner, rfl⟩ := Option.map_eq_some_iff.1 h
      obtain ⟨hlast, hopen⟩ := ih hinner
      have hbackslash : c ≠ '\\' := by
        rintro rfl
        cases rest with
        | nil => exact hend rfl rfl
        | cons d rest => exact hpair d rest rfl rfl
      rw [List.take_succ_cons, List.getLast?_cons, hlast]
      refine ⟨rfl, ?_⟩
      intro hquote
      rw [List.mem_cons, not_or] at hquote
      exact .plain ⟨Ne.symm hquote.1, hbackslash⟩ (hopen hquote.2)

/-- A regular expression does not end in a backslash, and keeps a string open if
it holds no quote. These are the two facts that strings behind it depend on. -/
theorem regExp?_spec {text : List Char} {size : Nat} (h : regExp? text = some size) :
    (text.take size).getLast? ≠ some '\\' ∧
      ('"' ∉ text.take size → StaysOpen (text.take size)) := by
  unfold regExp? at h
  split at h
  · cases h
  · next rest _ =>
    obtain ⟨inner, hinner, rfl⟩ := Option.map_eq_some_iff.1 h
    obtain ⟨hlast, hopen⟩ := regExpRest?_spec hinner
    have hflags : ∀ c ∈ (rest.drop inner).takeWhile isRegExpFlag, IsPlain c := fun c hmember =>
      isPlain_of isRegExpFlag rfl rfl (List.all_eq_true.1 List.all_takeWhile c hmember)
    have hsplit : ('/' :: rest).take
        (1 + inner + ((rest.drop inner).takeWhile isRegExpFlag).length) =
        '/' :: (rest.take inner ++ (rest.drop inner).takeWhile isRegExpFlag) := by
      rw [Nat.add_assoc, Nat.add_comm 1, List.take_succ_cons, List.take_add, take_takeWhile]
    rw [hsplit]
    constructor
    · rw [List.getLast?_cons, List.getLast?_append, hlast]
      cases hend : ((rest.drop inner).takeWhile isRegExpFlag).getLast? with
      | none => simp
      | some c => simpa using (hflags c (List.mem_of_getLast? hend)).2
    · intro hquote
      simp only [List.mem_cons, List.mem_append, not_or] at hquote
      exact .plain (by decide) ((hopen hquote.2.1).append (.of_plain hflags))
  · cases h

theorem stringRest?_pos {text : List Char} {size : Nat} (h : stringRest? text = some size) :
    0 < size := by
  have hlast := (stringRest?_closes h).2
  rcases size with _ | size
  · simp at hlast
  · omega

theorem stringRest?_le {text : List Char} {size : Nat} (h : stringRest? text = some size) :
    size ≤ text.length := by
  fun_induction stringRest? text generalizing size with
  | case1 => cases h
  | case2 rest => cases h; simp
  | case3 => cases h
  | case4 => cases h
  | case5 c rest hbreak ih =>
      obtain ⟨inner, hinner, rfl⟩ := Option.map_eq_some_iff.1 h
      simpa using ih hinner
  | case6 c rest hquote hend hpair ih =>
      obtain ⟨inner, hinner, rfl⟩ := Option.map_eq_some_iff.1 h
      simpa using ih hinner

theorem string?_spec {text : List Char} {size : Nat} (h : string? text = some size) :
    ∃ rest inner, text = '"' :: rest ∧ stringRest? rest = some inner ∧ size = inner + 1 := by
  unfold string? at h
  split at h
  · next rest =>
    obtain ⟨inner, hinner, rfl⟩ := Option.map_eq_some_iff.1 h
    exact ⟨rest, inner, rfl, hinner, rfl⟩
  · cases h

/-- A plain quoted text has quotes at its ends and none between them, and it
runs over one line only. -/
theorem plainQuoted?_spec {text : List Char} {size : Nat} (h : plainQuoted? text = some size) :
    ∃ inner, text.take size = '"' :: (inner ++ ['"']) ∧
      ∀ c ∈ inner, c ≠ '"' ∧ isLineBreak c = false := by
  unfold plainQuoted? at h
  split at h
  · next body =>
    dsimp only at h
    rw [Option.ite_none_right_eq_some] at h
    obtain ⟨hclosed, hsize⟩ := h
    cases hsize
    have hsplit := List.prefix_iff_eq_append.1
      (List.takeWhile_prefix (l := body) fun c => c != '"' && !isLineBreak c)
    generalize hinner : (body.takeWhile fun c => c != '"' && !isLineBreak c) = inner
      at hclosed hsplit ⊢
    refine ⟨inner, ?_, fun c hmember => ?_⟩
    · cases hrest : body.drop inner.length with
      | nil => simp [hrest] at hclosed
      | cons d rest =>
          have hquote : d = '"' := by simpa [hrest] using hclosed
          rw [List.take_succ_cons, ← hsplit, hrest, hquote, List.take_append]
          simp [List.take_of_length_le]
    · rw [← hinner] at hmember
      simpa using List.all_eq_true.1 List.all_takeWhile c hmember
  · cases h

/-- A text without quotes and line breaks inside a string leaves the next
character unprotected, or the string stays open behind a quote. -/
theorem quoteState_inner : ∀ inner : List Char,
    (∀ c ∈ inner, c ≠ '"' ∧ isLineBreak c = false) →
    quoteState (some false) inner = some false ∨ StaysOpen (inner ++ ['"'])
  | [], _ => .inl rfl
  | c :: rest, h => by
      rw [List.forall_mem_cons] at h
      obtain ⟨⟨hquote, _⟩, hrest⟩ := h
      by_cases hbackslash : c = '\\'
      · subst hbackslash
        match rest, hrest with
        | [], _ => exact .inr (.pair (by decide) .nil)
        | d :: rest, hrest =>
            rw [List.forall_mem_cons] at hrest
            exact (quoteState_inner rest hrest.2).imp id (.pair hrest.1.2)
      · have hplain : IsPlain c := ⟨hquote, hbackslash⟩
        refine (quoteState_inner rest hrest).imp (fun hstate => ?_) (.plain hplain)
        rw [quoteState_cons, quoteStep_plain _ (by simp) hplain, hstate]

/-- No string is open before a text, or one that the text does not close. -/
def KeepsStep (state : Option Bool) (text : List Char) : Prop :=
  state = none ∨ state = some false ∧ stringRest? text = none

theorem string_mem_all : (⟨.string, fun _ => string?⟩ : Pattern) ∈ all :=
  .tail _ (.tail _ (.head _))

/-- A quoted text with an ending behind it is one for strings as well; if the
string would end later, none ends behind it. -/
theorem keepsStep_ending {previous : Option Char} {text : List Char} {kind : TokenKind}
    {quoted size : Nat} (hmatch : longestMatch previous text = some (kind, quoted + size))
    (hquoted : plainQuoted? text = some quoted) (hending : PlainUpTo (text.drop quoted) size) :
    KeepsStep (quoteState none (text.take (quoted + size))) (text.drop (quoted + size)) := by
  obtain ⟨inner, hinside, hinner⟩ := plainQuoted?_spec hquoted
  have htake : text.take (quoted + size) =
      '"' :: (inner ++ '"' :: (text.drop quoted).take size) := by
    rw [List.take_add, hinside]
    simp
  have hlength : min quoted text.length = inner.length + 2 := by
    have hcount := congrArg List.length hinside
    simpa using hcount
  rw [htake, quoteState_cons]
  change KeepsStep (quoteState (some false) _) _
  rcases quoteState_inner inner hinner with hstate | hopen
  · left
    rw [quoteState_append, hstate, quoteState_cons]
    exact quoteState_plain (by simp [quoteStep]) hending
  · have hstays : StaysOpen (inner ++ '"' :: (text.drop quoted).take size) := by
      have happend := hopen.append (.of_plain hending)
      simpa using happend
    refine .inr ⟨hstays.quoteState, ?_⟩
    cases hrest : stringRest? (text.drop (quoted + size)) with
    | none => rfl
    | some more =>
        exfalso
        have hstring : string? text =
            some (more + (inner ++ '"' :: (text.drop quoted).take size).length + 1) := by
          conv => lhs; rw [← List.take_append_drop (quoted + size) text, htake]
          rw [List.cons_append, string?, hstays.stringRest?, hrest]
          rfl
        have hshort := (longestMatch_spec hmatch).2.2 _ string_mem_all _ hstring
        have hpositive := stringRest?_pos hrest
        have hnotEnd : ¬text.length ≤ quoted + size := by
          intro hend
          rw [List.drop_of_length_le hend] at hrest
          cases hrest
        simp only [List.length_append, List.length_cons, List.length_take,
          List.length_drop] at hshort
        omega

theorem getLast?_ending {text : List Char} {quoted size : Nat}
    (hquoted : plainQuoted? text = some quoted) (hending : PlainUpTo (text.drop quoted) size) :
    (text.take (quoted + size)).getLast? ≠ some '\\' := by
  obtain ⟨inner, hinside, _⟩ := plainQuoted?_spec hquoted
  rw [List.take_add, List.getLast?_append, hinside]
  cases hlast : ((text.drop quoted).take size).getLast? with
  | none => simp [List.getLast?_cons]
  | some c => simpa using (hending c (List.mem_of_getLast? hlast)).2

/-- No token ends in a backslash, so that what stands behind it is not
protected. -/
theorem getLast?_match {previous : Option Char} {text : List Char} {kind : TokenKind}
    {size : Nat} (h : longestMatch previous text = some (kind, size)) :
    (text.take size).getLast? ≠ some '\\' := by
  cases longestMatch_shape h with
  | string hstring =>
      obtain ⟨rest, inner, rfl, hinner, rfl⟩ := string?_spec hstring
      rw [List.take_succ_cons, List.getLast?_cons, (stringRest?_closes hinner).2]
      simp
  | ending _ hquoted hending => exact getLast?_ending hquoted hending
  | regExp hregExp => exact (regExp?_spec hregExp).1
  | plain _ hplain =>
      cases hlast : (text.take size).getLast? with
      | none => simp
      | some c => simpa using (hplain c (List.mem_of_getLast? hlast)).2

/-- A token of strings is what the pattern of strings matches, as no other
pattern has this kind. -/
theorem string?_of_longestMatch {previous : Option Char} {text : List Char} {size : Nat}
    (h : longestMatch previous text = some (.string, size)) :
    string? text = some size := by
  cases longestMatch_shape h with
  | string hstring => exact hstring
  | ending hkind => rcases hkind with hkind | hkind <;> cases hkind
  | plain hkind => exact absurd List.mem_cons_self hkind

/-- A string that is opened outside of all others is closed by its token. -/
theorem quoteState_string {text : List Char} {size : Nat} (h : string? text = some size) :
    quoteState none (text.take size) = none := by
  obtain ⟨rest, inner, rfl, hinner, rfl⟩ := string?_spec h
  rw [List.take_succ_cons, quoteState_cons]
  exact (stringRest?_closes hinner).1

/-- What can be read inside a string does not end one that is not ended later. -/
theorem KeepsStep.staysOpen {state : Option Bool} {text : List Char} {size : Nat}
    (hstate : KeepsStep state text) (hopen : StaysOpen (text.take size))
    (hquote : '"' ∉ text.take size) :
    KeepsStep (quoteState state (text.take size)) (text.drop size) := by
  rcases hstate with rfl | ⟨rfl, hnever⟩
  · exact .inl (quoteState_none hquote)
  · refine .inr ⟨hopen.quoteState, ?_⟩
    rw [← List.take_append_drop size text, hopen.stringRest?] at hnever
    simpa using hnever

/-- A text that starts with a quote cannot be inside a string that stays open. -/
theorem KeepsStep.outside {state : Option Bool} {rest : List Char}
    (h : KeepsStep state ('"' :: rest)) :
    state = none := by
  rcases h with hstate | ⟨_, hnever⟩
  · exact hstate
  · cases hnever

/-- Tokens keep step with the reading of quotes, as long as no regular
expression holds a quote. -/
theorem KeepsStep.match {state : Option Bool} {previous : Option Char} {text : List Char}
    {kind : TokenKind} {size : Nat} (hstate : KeepsStep state text)
    (h : longestMatch previous text = some (kind, size))
    (hregExp : kind = .regExp → '"' ∉ text.take size) :
    KeepsStep (quoteState state (text.take size)) (text.drop size) := by
  cases longestMatch_shape h with
  | string hstring =>
      obtain ⟨rest, _, rfl, _⟩ := string?_spec hstring
      rw [hstate.outside]
      exact .inl (quoteState_string hstring)
  | ending _ hquoted hending =>
      obtain ⟨rest, rfl⟩ : ∃ rest, text = '"' :: rest := by
        unfold plainQuoted? at hquoted
        split at hquoted
        · exact ⟨_, rfl⟩
        · cases hquoted
      rw [hstate.outside]
      exact keepsStep_ending h hquoted hending
  | regExp hmatch =>
      exact hstate.staysOpen ((regExp?_spec hmatch).2 (hregExp rfl)) (hregExp rfl)
  | plain _ hplain =>
      exact hstate.staysOpen (.of_plain hplain) fun hmember => (hplain _ hmember).1 rfl

end Pattern

/-- A token of strings, where it stands, and what is open before it. -/
structure StringAt (position : Position) (state : Option Bool) (text : List Char) (token : Token)
    (before after : List Char) : Prop where
  covers : text = before ++ (token.text.toList ++ after)
  position : token.position = position.after before
  string : string? (token.text.toList ++ after) = some token.text.toList.length
  state : quoteState state before ≠ some true

/-- A string that is matched stands at the start of the text. -/
theorem StringAt.of_match {previous : Option Char} {text : List Char} {size : Nat}
    (hmatch : longestMatch previous text = some (.string, size)) {state : Option Bool}
    (hstate : state ≠ some true) (span : Span) (position : Position) :
    StringAt position state text ⟨.string, String.ofList (text.take size), span, position⟩ []
      (text.drop size) := by
  have hstring := string?_of_longestMatch hmatch
  have hlength : (text.take size).length = size := by
    obtain ⟨inner, count, rfl, hinner, rfl⟩ := string?_spec hstring
    rw [List.length_take, List.length_cons,
      Nat.min_eq_left (Nat.succ_le_succ (stringRest?_le hinner))]
  refine ⟨?_, rfl, ?_, hstate⟩
  · simp
  · rw [String.toList_ofList, List.take_append_drop, hlength]
    exact hstring

/-- What stands in front of a text moves the tokens in it. -/
theorem StringAt.behind (front : List Char) {position : Position} {state : Option Bool}
    {text : List Char} {token : Token} {before after : List Char}
    (h : StringAt (position.after front) (quoteState state front) text token before after) :
    StringAt position state (front ++ text) token (front ++ before) after where
  covers := by rw [h.covers, List.append_assoc]
  position := by rw [h.position, Position.after_append]
  string := h.string
  state := by rw [quoteState_append]; exact h.state

/-- Every string token stands in the text, no backslash protects it, and no
string is open before it as long as no regular expression holds a quote. -/
theorem tokensFrom_strings {offset : Nat} {position : Position} {previous : Option Char}
    {text : List Char} {tokens : List Token}
    (h : tokensFrom offset position previous text = .ok tokens) {state : Option Bool}
    (hstate : state ≠ some true) :
    ∀ token ∈ tokens, token.kind = .string →
      ∃ before after, StringAt position state text token before after ∧
        (KeepsStep state text →
          (∀ other ∈ tokens, other.kind = .regExp → '"' ∉ other.text.toList) →
          quoteState state before = none) := by
  fun_induction tokensFrom offset position previous text generalizing tokens state with
  | case1 offset position previous =>
      cases h
      intro token htoken hkind
      rw [List.mem_singleton.1 htoken] at hkind
      cases hkind
  | case2 offset position previous c rest hblank ih =>
      intro token htoken hkind
      have hplain : IsPlain c := isPlain_of isBlank rfl rfl hblank
      have hsame : quoteState state [c] = state := quoteStep_plain state hstate hplain
      obtain ⟨before, after, hat, hkeeps⟩ := ih h hstate token htoken hkind
      have hmoved := hat
      rw [← hsame] at hmoved
      refine ⟨[c] ++ before, after, hmoved.behind [c], ?_⟩
      intro hstep hregExp
      rw [quoteState_append, hsame]
      refine hkeeps ?_ hregExp
      exact hstep.imp_right fun ⟨hopen, hnever⟩ => ⟨hopen, by
        simpa [stringRest?_cons_plain _ hplain] using hnever⟩
  | case3 offset position previous c rest hblank hmatch => cases h
  | case4 offset position previous c rest hblank kind size hmatch lexeme stop =>
      rename_i ih
      obtain ⟨hpositive, _, _⟩ := longestMatch_spec hmatch
      obtain ⟨size, rfl⟩ := Nat.exists_eq_add_one.2 hpositive
      have hlexeme : lexeme = (c :: rest).take (size + 1) := rfl
      have hrest : rest.drop (size + 1 - 1) = (c :: rest).drop (size + 1) := rfl
      cases hfollowing : tokensFrom stop (position.after lexeme) lexeme.getLast?
          (rest.drop (size + 1 - 1)) with
      | error error =>
          rw [hfollowing] at h
          cases h
      | ok following =>
          rw [hfollowing] at h
          cases h
          intro token htoken hkind
          rcases List.mem_cons.1 htoken with rfl | htoken
          · subst hkind
            refine ⟨[], _, .of_match hmatch hstate _ position, ?_⟩
            intro hstep _
            obtain ⟨inner, _, heq, _⟩ := string?_spec (string?_of_longestMatch hmatch)
            cases heq
            exact hstep.outside
          · have hnext : quoteState state lexeme ≠ some true := fun hprotected =>
              getLast?_match hmatch (getLast?_of_quoteState hstate hprotected)
            obtain ⟨before, after, hat, hkeeps⟩ := ih hfollowing hnext token htoken hkind
            have hmoved := hat.behind lexeme
            rw [hrest, hlexeme, List.take_append_drop] at hmoved
            refine ⟨_, after, hmoved, ?_⟩
            intro hstep hregExp
            rw [quoteState_append]
            refine hkeeps (hstep.match hmatch fun hkind => ?_) fun other hother =>
              hregExp other (List.mem_cons_of_mem _ hother)
            rw [← hlexeme]
            simpa using hregExp _ List.mem_cons_self hkind

/-- A token stands in a text behind a part of it. -/
structure Token.StandsBehind (token : Token) (text before : List Char) : Prop where
  covers : ∃ after, text = before ++ (token.text.toList ++ after)
  position : token.position = Position.start.after before

namespace Text

/-- Inside a string nothing is blanked up to its closing quote. The second part
is about a text behind a backslash. -/
theorem blankFrom_string (previous : Option Char) (offset : Nat) (text after : List Char) :
    (stringRest? ((blankFrom (.string false) previous offset text).1 ++ after) =
        some text.length →
      (blankFrom (.string false) previous offset text).1 = text) ∧
    (stringRest? ('\\' :: ((blankFrom (.string true) previous offset text).1 ++ after)) =
        some (text.length + 1) →
      (blankFrom (.string true) previous offset text).1 = text) := by
  induction text generalizing previous offset with
  | nil => exact ⟨fun _ => rfl, fun _ => rfl⟩
  | cons c rest ih =>
      obtain ⟨ihOpen, ihProtected⟩ := ih (some c) (offset + c.utf8Size)
      constructor
      · intro h
        by_cases hbackslash : c = '\\'
        · subst hbackslash
          exact congrArg _ (ihProtected h)
        · by_cases hquote : c = '"'
          · subst hquote
            have hend : rest = [] := by
              have hlength : 1 = rest.length + 1 := Option.some.inj h
              exact List.length_eq_zero_iff.1 (by omega)
            subst hend
            rfl
          · have hstep : CommentMode.step (.string false) previous offset c =
                (.string false, c) := by
              simp [CommentMode.step, hbackslash, hquote]
            rw [blankFrom_cons, hstep] at h ⊢
            rw [List.cons_append, stringRest?_cons_plain _ ⟨hquote, hbackslash⟩] at h
            exact congrArg _ (ihOpen (by simpa using h))
      · intro h
        have hstep : CommentMode.step (.string true) previous offset c = (.string false, c) := rfl
        rw [blankFrom_cons, hstep] at h ⊢
        rw [List.cons_append, stringRest?, Option.ite_none_left_eq_some] at h
        exact congrArg _ (ihOpen (by simpa using h.2))

/-- A quote is written outside of comments only. -/
theorem CommentMode.step_quote {mode : CommentMode} {previous : Option Char} {offset : Nat}
    {c : Char} (h : (mode.step previous offset c).2 = '"') :
    c = '"' ∧ (mode = .code ∨ ∃ escaped, mode = .string escaped) := by
  cases mode with
  | code =>
      by_cases hquote : c = '"'
      · exact ⟨hquote, .inl rfl⟩
      · by_cases hhash : c = '#'
        · simp [step, hhash] at h
        · cases hmark : isCommentQuote previous c <;>
            simp [step, hquote, hhash, hmark] at h
  | string escaped =>
      refine ⟨?_, .inr ⟨escaped, rfl⟩⟩
      cases escaped with
      | true => exact h
      | false =>
          by_contra hquote
          by_cases hbackslash : c = '\\'
          · simp [step, hbackslash] at h
          · simp [step, hbackslash, hquote] at h
  | line => by_cases hend : c = '\n' <;> simp [step, hend] at h
  | block opening =>
      cases hmark : isCommentQuote previous c
      · by_cases hend : c = '\n'
        · subst hend
          simp [step, hmark, blanked] at h
        · simp [step, hmark, blanked, hend] at h
      · simp [step, hmark] at h

/-- A string is met as code or in a string that its quote closes. As code
nothing in it is changed; otherwise it is read as code itself. -/
theorem blankFrom_string_token {mode : CommentMode} {previous : Option Char} {offset : Nat}
    {text after : List Char} (hprotected : mode.openString ≠ some true)
    (h : string? ((blankFrom mode previous offset text).1 ++ after) = some text.length) :
    (mode.openString = none → mode = .code) ∧
      ((blankFrom mode previous offset text).1 = text ↔
        mode = .code ∨ (blankFrom .code (some '"') (offset + 1) text.tail).1 = text.tail) := by
  obtain ⟨body, size, heq, hbody, hlength⟩ := string?_spec h
  cases text with
  | nil => cases hlength
  | cons c rest =>
      rw [blankFrom_cons, List.cons_append, List.cons.injEq] at heq
      obtain ⟨hwritten, rfl⟩ := heq
      have hsize : size = rest.length := by simpa using hlength.symm
      subst hsize
      obtain ⟨rfl, rfl | ⟨escaped, rfl⟩⟩ := CommentMode.step_quote hwritten
      · refine ⟨fun _ => rfl, iff_of_true ?_ (.inl rfl)⟩
        exact congrArg _ ((blankFrom_string _ _ rest after).1 hbody)
      · cases escaped with
        | true => exact absurd rfl hprotected
        | false =>
            refine ⟨nofun, ?_⟩
            simp only [reduceCtorEq, false_or, List.tail_cons]
            exact ⟨fun hsame => (List.cons.inj hsame).2, fun hsame => congrArg _ hsame⟩

end Text

/-- The characters of a source, with line ends normalized, from a place on. -/
def sourceText (source : String) (start length : Nat) : List Char :=
  ((normalizeNewlines source.toList).drop start).take length

/-- What the blanking of comments takes a place of a source for. -/
def modeAt (source : String) (start : Nat) : CommentMode :=
  (blankFrom .code none 0 ((normalizeNewlines source.toList).take start)).2

/-- Whether a text behind a quote has no comments when it is read as code. -/
def CommentFree (offset : Nat) (text : List Char) : Prop :=
  (blankFrom .code (some '"') offset text).1 = text

/-- A token has the text that stands in its place in the source. -/
def Token.Unaltered (token : Token) (source : String) (before : List Char) : Prop :=
  sourceText source before.length token.text.toList.length = token.text.toList

theorem stripComments_eq_ok {source text : List Char} (h : stripComments source = .ok text) :
    (blankFrom .code none 0 (normalizeNewlines source)).1 = text := by
  unfold stripComments at h
  split at h
  · cases h
  · next written _ _ heq =>
    cases h
    rw [heq]

/-- A first part of what a text is blanked to comes from the first part of the
text. -/
theorem blankFrom_split {mode : CommentMode} {previous : Option Char} {offset : Nat}
    {text before after : List Char}
    (h : (blankFrom mode previous offset text).1 = before ++ after) :
    (blankFrom mode previous offset (text.take before.length)).1 = before ∧
      (blankFrom (blankFrom mode previous offset (text.take before.length)).2
        (lastOr previous (text.take before.length)) (offset + byteSize before)
        (text.drop before.length)).1 = after := by
  have hlength : before.length ≤ text.length := by
    have hcount := congrArg List.length h
    rw [length_blankFrom, List.length_append] at hcount
    omega
  rw [← List.take_append_drop before.length text, blankFrom_append] at h
  obtain ⟨hbefore, hafter⟩ := List.append_inj h (by
    rw [length_blankFrom, List.length_take, Nat.min_eq_left hlength])
  rw [hbefore] at hafter
  exact ⟨hbefore, hafter⟩

/-- Where a token stands, the blanked text comes from the text of the source by
the mode of that place. -/
theorem blank_at_token {source : String} {before middle after : List Char}
    (h : (blankFrom .code none 0 (normalizeNewlines source.toList)).1 =
      before ++ (middle ++ after)) :
    (modeAt source before.length).openString = quoteState none before ∧
      ∃ previous, (blankFrom (modeAt source before.length) previous (byteSize before)
        (sourceText source before.length middle.length)).1 = middle := by
  obtain ⟨hbefore, hafter⟩ := blankFrom_split h
  constructor
  · have hstate := blankFrom_openString .code none 0
      ((normalizeNewlines source.toList).take before.length)
    rw [hbefore] at hstate
    exact hstate.symm
  · rw [Nat.zero_add] at hafter
    exact ⟨_, (blankFrom_split hafter).1⟩

/-- Every string token stands at one place of the blanked text. It has the text
of the source at that place if and only if the blanking of comments takes the
place for code, or it holds no comment when it is read as code. It has that text
anyway if no regular expression holds a quote. -/
theorem string_unaltered_iff {source : String} {lexed : Lexed} (h : lex source = .ok lexed) :
    ∀ token ∈ lexed.tokens, token.kind = .string →
      ∃ before, token.StandsBehind lexed.text.toList before ∧
        (token.Unaltered source before ↔
          modeAt source before.length = .code ∨
            CommentFree (byteSize before + 1)
              (sourceText source before.length token.text.toList.length).tail) ∧
        ((∀ other ∈ lexed.tokens, other.kind = .regExp → '"' ∉ other.text.toList) →
          token.Unaltered source before) := by
  unfold lex at h
  cases hstrip : stripComments source.toList with
  | error error =>
      rw [hstrip] at h
      cases h
  | ok text =>
      rw [hstrip] at h
      cases htokens : tokensFrom 0 .start none text with
      | error error =>
          simp [htokens, bind, Except.bind] at h
      | ok tokens =>
          simp only [htokens, bind, Except.bind, pure, Except.pure, Except.ok.injEq] at h
          subst h
          intro token htoken hkind
          obtain ⟨before, after, hat, hkeeps⟩ :=
            tokensFrom_strings htokens (nofun : none ≠ some true) token htoken hkind
          have hblank := (stripComments_eq_ok hstrip).trans hat.covers
          obtain ⟨hmode, previous, hmiddle⟩ := blank_at_token hblank
          have hlength : (sourceText source before.length token.text.toList.length).length =
              token.text.toList.length := by
            rw [← length_blankFrom (modeAt source before.length) previous (byteSize before),
              hmiddle]
          have hstring := hat.string
          rw [← hmiddle, length_blankFrom] at hstring
          obtain ⟨hcode, hiff⟩ :=
            blankFrom_string_token (by rw [hmode]; exact hat.state) hstring
          rw [hmiddle] at hiff
          have hunaltered : token.Unaltered source before ↔
              modeAt source before.length = .code ∨
                CommentFree (byteSize before + 1)
                  (sourceText source before.length token.text.toList.length).tail := by
            rw [Token.Unaltered, eq_comm]
            exact hiff
          refine ⟨before, ⟨⟨after, ?_⟩, hat.position⟩, hunaltered, fun hregExp => ?_⟩
          · rw [String.toList_ofList]
            exact hat.covers
          · exact hunaltered.2 (.inl (hcode (hmode.trans (hkeeps (.inl rfl) hregExp))))

theorem eq_ok_of_toOption {ε α : Type} {result : Except ε α} {value : α}
    (h : result.toOption = some value) : result = .ok value := by
  cases result with
  | error error => cases h
  | ok other => exact congrArg _ (Option.some.inj h)

theorem lex_eq_ok {source : String} {lexed : Lexed}
    (h : (lex source).toOption = some lexed) :
    lex source = .ok lexed :=
  eq_ok_of_toOption h

/-- A string with a comment mark. -/
def marked : String := "\"a 'b' c\";"

def markedToken : Token := ⟨.string, "\"a 'b' c\"", ⟨0, 9⟩, ⟨1, 1⟩⟩

theorem string_unaltered_iff_marked :
    ∃ lexed, lex marked = .ok lexed ∧ markedToken ∈ lexed.tokens ∧
      ∃ before, markedToken.StandsBehind lexed.text.toList before ∧
        markedToken.Unaltered marked before := by
  have hlex : lex marked = .ok ⟨marked, [markedToken, ⟨.semicolon, ";", ⟨9, 10⟩, ⟨1, 10⟩⟩,
      ⟨.endOfInput, "", ⟨10, 10⟩, ⟨1, 11⟩⟩]⟩ := lex_eq_ok (by decide +kernel)
  obtain ⟨before, hstands, _, hregExp⟩ :=
    string_unaltered_iff hlex markedToken List.mem_cons_self rfl
  exact ⟨_, hlex, List.mem_cons_self, before, hstands, hregExp (by decide)⟩

/-- The same string behind a regular expression that holds a quote. -/
def misread : String := "/\"/; \"a 'b' c\";"

theorem string_altered_behind_regExp :
    ∃ lexed, lex misread = .ok lexed ∧ ∃ token ∈ lexed.tokens, token.kind = .string ∧
      ∃ before, token.StandsBehind lexed.text.toList before ∧ ¬token.Unaltered misread before := by
  have hlex : lex misread = .ok ⟨"/\"/; \"a     c\";", [⟨.regExp, "/\"/", ⟨0, 3⟩, ⟨1, 1⟩⟩,
      ⟨.semicolon, ";", ⟨3, 4⟩, ⟨1, 4⟩⟩, ⟨.string, "\"a     c\"", ⟨5, 14⟩, ⟨1, 6⟩⟩,
      ⟨.semicolon, ";", ⟨14, 15⟩, ⟨1, 15⟩⟩, ⟨.endOfInput, "", ⟨15, 15⟩, ⟨1, 16⟩⟩]⟩ :=
    lex_eq_ok (by decide +kernel)
  refine ⟨_, hlex, ⟨.string, "\"a     c\"", ⟨5, 14⟩, ⟨1, 6⟩⟩, by decide, rfl, "/\"/; ".toList,
    ⟨⟨[';'], by decide⟩, by decide⟩, ?_⟩
  unfold Token.Unaltered
  decide +kernel

end ConfigNotation
