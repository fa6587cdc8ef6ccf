import ConfigNotation.Proofs.Bytes.Delimited
import ConfigNotation.Proofs.Bytes.Numerals
import ConfigNotation.Proofs.Text.Lines
import ConfigNotation.Proofs.Token.Tiling

/-!
The scanner as it walks over a text by offsets into its bytes. It cuts the text at offsets that
patterns over bytes give, and panics where one of them falls inside a character or behind the
end. From the start of a text no step panics, every step gets further, and the tokens are those
of the text as characters.
-/

namespace ConfigNotation.Bytes

open Text Utf8 Pattern

abbrev Matcher := (bytes : List UInt8) → (offset : Nat) → Checked (Option Nat)

namespace Matcher

/-- A pattern that never panics. -/
def plain (length? : List UInt8 → Nat → Option Nat) : Matcher :=
  fun bytes offset => some (length? bytes offset)

def keyword (text : String) : Matcher := fun bytes => word? bytes text.toList

def mark (text : String) : Matcher := fun bytes => fixed? bytes text.toList

/-- All patterns in order of precedence. -/
def all : List (TokenKind × Matcher) :=
  [(.date, plain date?), (.file, plain file?), (.string, plain string?), (.regExp, plain regExp?),
    (.number, number?), (.bigInt, bigInt?),
    (.boolean, keyword "True"), (.boolean, keyword "False"), (.null, keyword "Null"),
    (.undefined, keyword "Undefined"), (.importWord, keyword "import"), (.useWord, keyword "use"),
    (.exportWord, keyword "export"), (.fromWord, keyword "from"), (.asWord, keyword "as"),
    (.skipWord, keyword "skip"), (.classWord, keyword "class"),
    (.extendsWord, keyword "extends"), (.includesWord, keyword "includes"),
    (.arrow, mark "=>"), (.spread, mark "..."), (.assocKey, plain assocKey?),
    (.numericKey, mark "@*"), (.path, plain path?), (.ident, plain ident?),
    (.leftParen, mark "("), (.rightParen, mark ")"), (.leftBracket, mark "["),
    (.rightBracket, mark "]"), (.comma, mark ","), (.semicolon, mark ";"), (.colon, mark ":"),
    (.question, mark "?"), (.equals, mark "=")]

end Matcher

/-- Takes a pattern into account: it is preferred only if it covers more. -/
def prefer? (bytes : List UInt8) (offset : Nat) (best : Option (TokenKind × Nat)) :
    TokenKind × Matcher → Checked (Option (TokenKind × Nat))
  | (kind, length?) => do
      match ← length? bytes offset with
      | none => return best
      | some size =>
          return if 0 < size ∧ best.all (·.2 < size) then some (kind, size) else best

/-- The longest match at an offset, of the earliest pattern on a tie. -/
def longestMatch? (bytes : List UInt8) (offset : Nat) : Checked (Option (TokenKind × Nat)) :=
  Matcher.all.foldlM (prefer? bytes offset) none

structure Cursor where
  offset : Nat
  position : Position
  deriving DecidableEq, Repr

namespace Cursor

def bump (cursor : Cursor) (c : Char) : Cursor :=
  ⟨cursor.offset + c.utf8Size, cursor.position.advance c⟩

def behind (before : List Char) : Cursor := ⟨byteSize before, Position.start.after before⟩

@[simp] theorem offset_behind (before : List Char) : (behind before).offset = byteSize before := rfl

/-- Going over a character leads to the cursor behind it: offset, line and
column move together. -/
theorem bump_behind (before : List Char) (c : Char) :
    (behind before).bump c = behind (before ++ [c]) := by
  simp [behind, bump]

end Cursor

section

variable (text : List Char)

def skipBlanks? (cursor : Cursor) : Checked Cursor :=
  match _h : dropBytes? cursor.offset text with
  | none => none
  | some [] => some cursor
  | some (c :: _) => if isBlank c then skipBlanks? (cursor.bump c) else some cursor
termination_by byteSize text - cursor.offset
decreasing_by
  have hinside := byteSize_of_dropBytes? _h
  have hsome := c.utf8Size_pos
  rw [byteSize_cons] at hinside
  simp only [Cursor.bump]
  omega

def advanceTo? (stop : Nat) (cursor : Cursor) : Checked Cursor :=
  if cursor.offset < stop then
    match dropBytes? cursor.offset text with
    | none => none
    | some [] => some cursor
    | some (c :: _) => advanceTo? stop (cursor.bump c)
  else some cursor
termination_by stop - cursor.offset
decreasing_by
  have hsome := c.utf8Size_pos
  simp only [Cursor.bump]
  omega

/-- The fault at an offset where no pattern matches. -/
def uncovered? (start : Cursor) : Checked LexError :=
  (dropBytes? start.offset text).map fun rest =>
    let c := rest.head?.getD '\x00'
    ⟨.ofUncovered c, .ofOffsets start.offset (start.offset + c.utf8Size), start.position⟩

/-- What comes of one step: the text is over, a token is cut off, or nothing
matches. -/
inductive Step where
  | finished (stop : Cursor)
  | cut (token : Token) (next : Cursor)
  | stuck (error : LexError)
  deriving DecidableEq, Repr

/-- The step at an offset where no blank stands. -/
def cut? (start : Cursor) : Checked Step :=
  if byteSize text ≤ start.offset then return .finished start
  else do
    match ← longestMatch? (encode text) start.offset with
    | none => return .stuck (← uncovered? text start)
    | some (kind, size) =>
        let stop := start.offset + size
        let lexeme ← slice? start.offset stop text
        let next ← advanceTo? text stop start
        return .cut ⟨kind, String.ofList lexeme, .ofOffsets start.offset stop, start.position⟩ next

def step? (cursor : Cursor) : Checked Step := do cut? text (← skipBlanks? text cursor)

end

section

variable {text : List Char} {cursor start next : Cursor}

theorem skipBlanks?_le (h : skipBlanks? text cursor = some start) :
    cursor.offset ≤ start.offset := by
  fun_induction skipBlanks? text cursor with
  | case1 => cases h
  | case2 => cases h; exact Nat.le_refl _
  | case3 cursor c rest hrest hblank ih =>
      have hmore := ih h
      simp only [Cursor.bump] at hmore
      omega
  | case4 => cases h; exact Nat.le_refl _

theorem advanceTo?_le {stop : Nat} (h : advanceTo? text stop cursor = some next) :
    cursor.offset ≤ next.offset := by
  fun_induction advanceTo? text stop cursor with
  | case1 => cases h
  | case2 => cases h; exact Nat.le_refl _
  | case3 cursor hbefore c rest hrest ih =>
      have hmore := ih h
      simp only [Cursor.bump] at hmore
      omega
  | case4 => cases h; exact Nat.le_refl _

/-- The end of the text is not passed over, but before it at least one character
is. -/
theorem advanceTo?_lt {stop : Nat} (h : advanceTo? text stop cursor = some next)
    (hstop : cursor.offset < stop) (hinside : cursor.offset < byteSize text) :
    cursor.offset < next.offset := by
  rw [advanceTo?, if_pos hstop] at h
  split at h
  · cases h
  · next hrest =>
    have hsize := byteSize_of_dropBytes? hrest
    rw [byteSize_nil] at hsize
    omega
  · next c rest hrest =>
    have hmore := advanceTo?_le h
    have hsome := c.utf8Size_pos
    simp only [Cursor.bump] at hmore
    omega

theorem prefer?_pos {bytes : List UInt8} {offset : Nat} {best found : Option (TokenKind × Nat)}
    {matcher : TokenKind × Matcher} (hbest : ∀ last ∈ best, 0 < last.2)
    (h : prefer? bytes offset best matcher = some found) : ∀ last ∈ found, 0 < last.2 := by
  obtain ⟨kind, length?⟩ := matcher
  rw [prefer?] at h
  obtain ⟨size?, -, h⟩ := Option.bind_eq_some_iff.1 h
  cases size? with
  | none => cases h; exact hbest
  | some size =>
      cases h
      split
      · next hlonger =>
        rintro _ ⟨⟩
        exact hlonger.1
      · exact hbest

theorem longestMatch?_pos {bytes : List UInt8} {offset size : Nat} {kind : TokenKind}
    (h : longestMatch? bytes offset = some (some (kind, size))) : 0 < size := by
  have hfold (matchers : List (TokenKind × Matcher)) (best found : Option (TokenKind × Nat))
      (hbest : ∀ last ∈ best, 0 < last.2)
      (h : matchers.foldlM (prefer? bytes offset) best = some found) :
      ∀ last ∈ found, 0 < last.2 := by
    induction matchers generalizing best with
    | nil => cases h; exact hbest
    | cons matcher matchers ih =>
        rw [List.foldlM_cons] at h
        obtain ⟨better, hbetter, h⟩ := Option.bind_eq_some_iff.1 h
        exact ih better (prefer?_pos hbest hbetter) h
  exact hfold Matcher.all none _ nofun h _ rfl

/-- A token that is cut off ends behind its start, so the loop over tokens gets
on. -/
theorem cut?_lt {token : Token} (h : cut? text start = some (.cut token next)) :
    start.offset < next.offset ∧ start.offset < byteSize text := by
  rw [cut?] at h
  split at h
  · cases h
  · next hinside =>
    obtain ⟨found, hfound, h⟩ := Option.bind_eq_some_iff.1 h
    cases found with
    | none =>
        obtain ⟨error, -, h⟩ := Option.bind_eq_some_iff.1 h
        cases h
    | some found =>
        obtain ⟨lexeme, -, h⟩ := Option.bind_eq_some_iff.1 h
        obtain ⟨stop, hstop, h⟩ := Option.bind_eq_some_iff.1 h
        cases h
        have hsize := longestMatch?_pos hfound
        exact ⟨advanceTo?_lt hstop (by omega) (by omega), by omega⟩

/-- A step that cuts off a token gets at least one byte further. -/
theorem step?_lt {token : Token} (h : step? text cursor = some (.cut token next)) :
    cursor.offset < next.offset ∧ cursor.offset < byteSize text := by
  obtain ⟨start, hstart, h⟩ := Option.bind_eq_some_iff.1 h
  have hle := skipBlanks?_le hstart
  have hlt := cut?_lt h
  omega

end

def scanFrom? (text : List Char) (cursor : Cursor) : Checked (Except LexError (List Token)) :=
  match _h : step? text cursor with
  | none => none
  | some (.finished stop) => some (.ok [.endAt stop.offset stop.position])
  | some (.stuck error) => some (.error error)
  | some (.cut token next) => (scanFrom? text next).map ((token :: ·) <$> ·)
termination_by byteSize text - cursor.offset
decreasing_by
  have hfurther := step?_lt _h
  omega

def scan? (text : List Char) : Checked (Except LexError (List Token)) :=
  scanFrom? text (.behind [])

/-- A pattern over bytes finds what one over characters does. -/
structure Follows (before rest : List Char) (matcher : TokenKind × Matcher) (pattern : Pattern) :
    Prop where
  kind : matcher.1 = pattern.kind
  length? : matcher.2 (encode (before ++ rest)) (byteSize before) =
    some ((pattern.length? before.getLast? rest).map (covered rest))

/-- Each pattern over bytes finds what the one at the same place of the list
over characters finds. -/
theorem all_follow (before rest : List Char) :
    List.Forall₂ (Follows before rest) Matcher.all Pattern.all := by
  have h := StandsAt.of_append before rest
  have hword (word : String) (hascii : ∀ c ∈ word.toList, IsAscii c) :
      Matcher.keyword word (encode (before ++ rest)) (byteSize before) =
        some ((Pattern.word? word.toList before.getLast? rest).map (covered rest)) :=
    word?_eq hascii before rest
  have hmark (word : String) (hascii : ∀ c ∈ word.toList, IsAscii c) :
      Matcher.mark word (encode (before ++ rest)) (byteSize before) =
        some ((Pattern.fixed? word.toList rest).map (covered rest)) :=
    fixed?_eq h hascii
  rw [Matcher.all, Pattern.all]
  simp only [List.forall₂_cons]
  refine ⟨⟨rfl, congrArg some (date?_eq h)⟩, ⟨rfl, congrArg some (file?_eq h)⟩,
    ⟨rfl, congrArg some (string?_eq h)⟩, ⟨rfl, congrArg some (regExp?_eq h)⟩,
    ⟨rfl, number?_eq h⟩, ⟨rfl, bigInt?_eq h⟩, ?_⟩
  and_intros
  all_goals first
    | exact ⟨rfl, hword _ (by decide)⟩
    | exact ⟨rfl, hmark _ (by decide)⟩
    | exact ⟨rfl, congrArg some (assocKey?_eq h)⟩
    | exact ⟨rfl, congrArg some (path?_eq h)⟩
    | exact ⟨rfl, congrArg some (ident?_eq h)⟩
    | exact .nil

def inBytes (rest : List Char) (found : TokenKind × Nat) : TokenKind × Nat :=
  (found.1, covered rest found.2)

section

variable {before rest : List Char} {best : Option (TokenKind × Nat)}

/-- More characters are more bytes, so that the same match is preferred. -/
theorem prefer?_eq {matcher : TokenKind × Matcher} {pattern : Pattern}
    (h : Follows before rest matcher pattern)
    (hcovers : CoversSome (pattern.length? before.getLast?))
    (hbest : ∀ last ∈ best, last.2 ≤ rest.length) :
    prefer? (encode (before ++ rest)) (byteSize before) (best.map (inBytes rest)) matcher =
        some ((prefer before.getLast? rest best pattern).map (inBytes rest)) ∧
      ∀ last ∈ prefer before.getLast? rest best pattern, last.2 ≤ rest.length := by
  obtain ⟨kind, length?⟩ := matcher
  have hkind : kind = pattern.kind := h.kind
  have hlength := h.length?
  dsimp only at hlength
  rw [prefer?, prefer, hlength]
  cases hmatch : pattern.length? before.getLast? rest with
  | none => exact ⟨rfl, hbest⟩
  | some size =>
      obtain ⟨hpositive, hsize⟩ := hcovers rest size hmatch
      have hsome : 0 < covered rest size := by
        rw [← covered_zero rest]
        exact covered_lt hpositive hsize
      have hlonger : (best.map (inBytes rest)).all (·.2 < covered rest size) = true ↔
          matchSize best < size := by
        cases best with
        | none => exact iff_of_true rfl hpositive
        | some last =>
            have hlast := hbest last rfl
            simp only [Option.map_some, Option.all_some, inBytes, decide_eq_true_eq, matchSize,
              Option.getD_some]
            constructor
            · intro hlt
              by_contra hle
              rcases Nat.lt_or_eq_of_le (Nat.le_of_not_lt hle) with hmore | heq
              · exact absurd (covered_lt hmore hlast) (by omega)
              · rw [heq] at hlt
                exact absurd hlt (Nat.lt_irrefl _)
            · exact fun hlt => covered_lt hlt hsize
      simp only [Option.map_some, Option.bind_eq_bind, Option.bind_some, hsome, hlonger, true_and]
      split
      · refine ⟨by rw [hkind]; rfl, ?_⟩
        rintro _ ⟨⟩
        exact hsize
      · exact ⟨rfl, hbest⟩

/-- At a boundary between characters the same match is the longest one. -/
theorem longestMatch?_eq (before rest : List Char) :
    longestMatch? (encode (before ++ rest)) (byteSize before) =
      some ((longestMatch before.getLast? rest).map (inBytes rest)) := by
  have hfold (matchers : List (TokenKind × Matcher)) (patterns : List Pattern)
      (hfollow : List.Forall₂ (Follows before rest) matchers patterns)
      (hcovers : ∀ pattern ∈ patterns, CoversSome (pattern.length? before.getLast?))
      (best : Option (TokenKind × Nat)) (hbest : ∀ last ∈ best, last.2 ≤ rest.length) :
      matchers.foldlM (prefer? (encode (before ++ rest)) (byteSize before))
          (best.map (inBytes rest)) =
        some ((patterns.foldl (prefer before.getLast? rest) best).map (inBytes rest)) := by
    induction hfollow generalizing best with
    | nil => rfl
    | cons hfirst _ ih =>
        obtain ⟨hpattern, hothers⟩ := List.forall_mem_cons.1 hcovers
        obtain ⟨hstep, hbetter⟩ := prefer?_eq hfirst hpattern hbest
        rw [List.foldlM_cons, List.foldl_cons, hstep]
        exact ih hothers _ hbetter
  exact hfold _ _ (all_follow before rest)
    (fun _ hmember => coversSome_of_mem hmember before.getLast?) none nofun

end

theorem skipBlanks?_eq (text : List Char) (cursor : Cursor) :
    skipBlanks? text cursor = (dropBytes? cursor.offset text).bind fun
      | [] => some cursor
      | c :: _ => if isBlank c then skipBlanks? text (cursor.bump c) else some cursor := by
  rw [skipBlanks?]
  split
  · next hrest => rw [hrest]; rfl
  · next hrest => rw [hrest]; rfl
  · next c rest hrest => rw [hrest]; rfl

/-- Blanks are gone over up to what is none. -/
theorem skipBlanks?_behind (before blanks : List Char) {rest : List Char}
    (hblanks : ∀ c ∈ blanks, isBlank c = true) (hrest : ∀ c ∈ rest.head?, isBlank c = false) :
    skipBlanks? (before ++ (blanks ++ rest)) (.behind before) =
      some (.behind (before ++ blanks)) := by
  induction blanks generalizing before with
  | nil =>
      rw [List.nil_append, List.append_nil, skipBlanks?_eq, Cursor.offset_behind,
        dropBytes?_append, Option.bind_some]
      cases rest with
      | nil => rfl
      | cons c rest => exact if_neg (by simp [hrest c rfl])
  | cons c blanks ih =>
      obtain ⟨hc, hblanks⟩ := List.forall_mem_cons.1 hblanks
      have hnext := ih (before ++ [c]) hblanks
      rw [List.append_assoc, List.append_assoc] at hnext
      rw [List.cons_append, skipBlanks?_eq, Cursor.offset_behind, dropBytes?_append,
        Option.bind_some]
      dsimp only
      rw [if_pos hc, Cursor.bump_behind]
      exact hnext

theorem not_byteSize_le (before : List Char) (c : Char) (rest : List Char) :
    ¬byteSize (before ++ c :: rest) ≤ byteSize before := by
  have hsome := c.utf8Size_pos
  rw [byteSize_append, byteSize_cons]
  omega

/-- A part of the text is gone over as a whole. -/
theorem advanceTo?_behind (before part rest : List Char) :
    advanceTo? (before ++ (part ++ rest)) (byteSize (before ++ part)) (.behind before) =
      some (.behind (before ++ part)) := by
  induction part generalizing before with
  | nil => rw [List.append_nil, advanceTo?, Cursor.offset_behind, if_neg (Nat.lt_irrefl _)]
  | cons c part ih =>
      have hnext := ih (before ++ [c])
      rw [List.append_assoc, List.append_assoc] at hnext
      have hbefore := Nat.lt_of_not_le (not_byteSize_le before c part)
      rw [advanceTo?, Cursor.offset_behind, if_pos hbefore, List.cons_append, dropBytes?_append]
      dsimp only
      rw [Cursor.bump_behind]
      exact hnext

theorem cut?_finished (before : List Char) :
    cut? before (.behind before) = some (.finished (.behind before)) :=
  if_pos (Nat.le_refl _)

/-- The match that is chosen at a place is cut off there. -/
theorem cut?_token {before rest after : List Char} {c : Char} {kind : TokenKind}
    (hchosen : IsChosen before.getLast? (c :: rest ++ after) kind (rest.length + 1)) :
    cut? (before ++ (c :: rest ++ after)) (.behind before) =
      some (.cut (tokenAt before kind (c :: rest)) (.behind (before ++ c :: rest))) := by
  have hmatch := longestMatch?_eq before (c :: rest ++ after)
  have hsize : covered (c :: rest ++ after) (rest.length + 1) = byteSize (c :: rest) := by
    rw [covered, ← List.length_cons, List.take_left]
  rw [longestMatch_eq_some_iff.2 hchosen, Option.map_some, inBytes, hsize] at hmatch
  have hslice := slice?_append before (c :: rest) after
  have hadvance := advanceTo?_behind before (c :: rest) after
  rw [byteSize_append] at hslice hadvance
  have hinside : ¬byteSize (before ++ (c :: rest ++ after)) ≤ byteSize before :=
    not_byteSize_le before c (rest ++ after)
  rw [cut?, Cursor.offset_behind, if_neg hinside]
  simp only [hmatch, Option.bind_eq_bind, Option.bind_some, hslice, hadvance]
  rw [tokenAt, byteSize_append]
  rfl

/-- Where no pattern matches the scanner is stuck. -/
theorem cut?_stuck {before rest : List Char} {c : Char}
    (hnone : ∀ pattern ∈ Pattern.all, pattern.length? before.getLast? (c :: rest) = none) :
    cut? (before ++ c :: rest) (.behind before) =
      some (.stuck ⟨.ofUncovered c, .ofOffsets (byteSize before) (byteSize before + c.utf8Size),
        Position.start.after before⟩) := by
  have hmatch := longestMatch?_eq before (c :: rest)
  rw [longestMatch_eq_none_iff.2 hnone] at hmatch
  rw [cut?, Cursor.offset_behind, if_neg (not_byteSize_le before c rest)]
  simp only [hmatch, Option.bind_eq_bind, Option.bind_some, uncovered?, Cursor.offset_behind,
    dropBytes?_append, Option.map_none, Option.map_some]
  rfl

theorem tokensBehind_blanks (before : List Char) {blanks : List Char}
    (hblanks : ∀ c ∈ blanks, isBlank c = true) (rest : List Char) :
    tokensBehind before (blanks ++ rest) = tokensBehind (before ++ blanks) rest := by
  induction blanks generalizing before with
  | nil => rw [List.nil_append, List.append_nil]
  | cons c blanks ih =>
      obtain ⟨hc, hblanks⟩ := List.forall_mem_cons.1 hblanks
      rw [List.cons_append, tokensBehind_blank hc, ih _ hblanks, List.append_assoc]
      rfl

theorem scanFrom?_step (text : List Char) (cursor : Cursor) :
    scanFrom? text cursor = (step? text cursor).bind fun
      | .finished stop => some (.ok [.endAt stop.offset stop.position])
      | .stuck error => some (.error error)
      | .cut token next => (scanFrom? text next).map ((token :: ·) <$> ·) := by
  rw [scanFrom?]
  split
  · next hstep => rw [hstep]; rfl
  · next stop hstep => rw [hstep]; rfl
  · next error hstep => rw [hstep]; rfl
  · next token next hstep => rw [hstep]; rfl

/-- From a boundary between characters the scanner finds the tokens that stand
there. -/
theorem scanFrom?_eq (before rest : List Char) :
    scanFrom? (before ++ rest) (.behind before) = some (tokensBehind before rest) := by
  obtain ⟨blanks, behind, hsplit, hblanks, hbehind⟩ : ∃ blanks behind, rest = blanks ++ behind ∧
      (∀ c ∈ blanks, isBlank c = true) ∧ ∀ c ∈ behind.head?, isBlank c = false := by
    refine ⟨rest.takeWhile isBlank, rest.dropWhile isBlank, List.takeWhile_append_dropWhile.symm,
      List.all_eq_true.1 List.all_takeWhile, ?_⟩
    intro c hc
    have hstop := List.head?_dropWhile_not isBlank rest
    rw [hc] at hstop
    simpa using hstop
  have hstep : step? (before ++ rest) (.behind before) =
      cut? (before ++ blanks ++ behind) (.behind (before ++ blanks)) := by
    rw [step?, hsplit, skipBlanks?_behind before blanks hblanks hbehind, List.append_assoc]
    rfl
  rw [scanFrom?_step, hstep, hsplit, tokensBehind_blanks before hblanks]
  cases behind with
  | nil =>
      rw [List.append_nil, cut?_finished, tokensBehind_nil]
      rfl
  | cons c behind =>
      have hc : isBlank c = false := hbehind c rfl
      rcases chosen_or_none (before ++ blanks).getLast? c behind with
        ⟨kind, lexeme, after, rfl, hchosen⟩ | hnone
      · have hrest := scanFrom?_eq (before ++ blanks ++ c :: lexeme) after
        have htext : before ++ (blanks ++ (c :: lexeme ++ after)) =
          before ++ blanks ++ c :: lexeme ++ after := by simp
        rw [← List.cons_append, cut?_token hchosen, tokensBehind_token hc hchosen,
          Option.bind_some, htext]
        dsimp only
        rw [hrest, Option.map_some]
      · rw [cut?_stuck hnone, tokensBehind_stop hc hnone]
        rfl
termination_by rest.length
decreasing_by
  rw [hsplit]
  simp only [List.length_append, List.length_cons]
  omega

theorem scan?_eq (text : List Char) : scan? text = some (tokensFrom 0 .start none text) :=
  scanFrom?_eq [] text

end ConfigNotation.Bytes
