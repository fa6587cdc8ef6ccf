import ConfigNotation.Proofs.Bytes.Matchers
import ConfigNotation.Proofs.Token.Longest

/-!
The patterns of quoted texts and of regular expressions over bytes. A backslash passes over one
byte, which may be the first one of a longer character: what is left of that is passed over byte
by byte, as none of these bytes ends a literal.
-/

namespace ConfigNotation.Bytes

open Text Pattern

section

variable (bytes : List UInt8)

/-- Whether a word of lower-case letters stands at an offset, in either case. -/
def startsWithAnyCase (offset : Nat) (word : List Char) : Bool :=
  match between? bytes offset (offset + word.length) with
  | some part => part.map Char.toLower == word
  | none => false

/-- The offset behind a quoted text without quotes or line breaks inside. -/
def plainQuotedEnd? (offset : Nat) : Option Nat :=
  if at? bytes offset = some '"' then
    let close := offset + 1 + countWhile bytes (offset + 1) fun c => c != '"' && !isLineBreak c
    if at? bytes close = some '"' then some (close + 1) else none
  else none

def date? (offset : Nat) : Option Nat :=
  (plainQuotedEnd? bytes offset).bind fun stop =>
    if startsWithAnyCase bytes stop ".date".toList then some (stop + 5 - offset) else none

def file? (offset : Nat) : Option Nat :=
  (plainQuotedEnd? bytes offset).bind fun stop =>
    if at? bytes stop = some '.' then
      (encodingEndings.find? (startsWithAnyCase bytes (stop + 1))).map fun ending =>
        stop + 1 + ending.length - offset
    else none

/-- The offset behind a closing quote. A backslash takes the next byte with it
unless that is barred. -/
def quoteEnd? (barred : Char → Bool) (offset : Nat) : Option Nat :=
  match h : at? bytes offset with
  | none => none
  | some c =>
      if c = '"' then some (offset + 1)
      else if c = '\\' then
        match at? bytes (offset + 1) with
        | none => none
        | some d => if barred d then none else quoteEnd? barred (offset + 2)
      else quoteEnd? barred (offset + 1)
termination_by bytes.length - offset
decreasing_by all_goals have := lt_length_of_at? h; omega

/-- A string, which has no line break behind a backslash. -/
def string? (offset : Nat) : Option Nat :=
  if at? bytes offset = some '"' then
    (quoteEnd? bytes isLineBreak (offset + 1)).map (· - offset)
  else none

/-- The offset of the slash that closes a regular expression, which is not the
first byte behind the opening one. -/
def regExpEnd? (opening offset : Nat) : Option Nat :=
  match h : at? bytes offset with
  | none => none
  | some c =>
      if c = '/' ∧ opening + 1 < offset then some offset
      else if c = '/' ∨ isLineBreak c then none
      else if c = '\\' then
        match at? bytes (offset + 1) with
        | none => none
        | some d => if isLineBreak d then none else regExpEnd? opening (offset + 2)
      else regExpEnd? opening (offset + 1)
termination_by bytes.length - offset
decreasing_by all_goals have := lt_length_of_at? h; omega

def regExp? (offset : Nat) : Option Nat :=
  if at? bytes offset = some '/' then
    (regExpEnd? bytes offset (offset + 1)).map fun stop =>
      stop + 1 + countWhile bytes (stop + 1) isRegExpFlag - offset
  else none

end

theorem isAsciiTest_isLineBreak : IsAsciiTest isLineBreak :=
  (isAsciiTest_beq (by decide)).or (isAsciiTest_beq (by decide))

theorem isAsciiTest_isRegExpFlag : IsAsciiTest isRegExpFlag := by
  refine isAsciiTest_of fun c h => ?_
  have hall : ∀ c ∈ "igsmuy".toList, IsAscii c := by decide
  exact hall c (List.contains_iff_mem.1 h)

section

variable {bytes : List UInt8} {offset : Nat} {rest : List Char} (h : StandsAt bytes offset rest)

include h

theorem startsWithAnyCase_eq {word : List Char} (hword : ∀ c ∈ word, IsAscii c) :
    startsWithAnyCase bytes offset word = Pattern.startsWithAnyCase word rest := by
  rw [startsWithAnyCase, h.between?_take, Pattern.startsWithAnyCase, Bool.eq_iff_iff, beq_iff_eq,
    ← toLower_asBytes hword]
  split
  · next hlong =>
    split at hlong
    · next part hsize =>
      cases hlong
      exact beq_iff_eq
    · cases hlong
  · next hshort =>
    split at hshort
    · cases hshort
    · next hsize =>
      refine iff_of_false Bool.false_ne_true fun heq => hsize ?_
      have hlength := congrArg List.length heq
      rw [List.length_map, List.length_take] at hlength
      omega

/-- The end of a plain quoted text is found over bytes as over characters:
quotes and line breaks are of ASCII. -/
theorem plainQuotedEnd?_eq :
    plainQuotedEnd? bytes offset = (plainQuoted? rest).map (offset + covered rest ·) := by
  have htest : IsAsciiTest fun c => c != '"' && !isLineBreak c :=
    ((isAsciiTest_beq (by decide)).not).and isAsciiTest_isLineBreak.not
  by_cases hquote : rest.head? = some '"'
  · obtain ⟨body, rfl⟩ := List.head?_eq_some_iff.1 hquote
    have hbody := h.tail_of_isAscii (by decide)
    have hclose := hbody.drop (body.takeWhile fun c => c != '"' && !isLineBreak c).length
    rw [← covered, covered_takeWhile] at hclose
    rw [plainQuotedEnd?, if_pos ((h.at?_eq_some_iff (by decide)).2 hquote)]
    simp only [hbody.countWhile_eq htest, hclose.at?_eq_some_iff (show IsAscii '"' by decide),
      plainQuoted?, beq_iff_eq]
    split
    · next hend =>
      obtain ⟨behind, hbehind⟩ := List.head?_eq_some_iff.1 hend
      rw [Option.map_some, covered_cons, covered_add, covered_takeWhile, hbehind, covered_cons,
        covered_zero, utf8Size_of_isAscii (by decide)]
      exact congrArg some (by omega)
    · rfl
  · have hnone : plainQuoted? rest = none := by
      unfold plainQuoted?
      split
      · exact absurd rfl hquote
      · rfl
    rw [plainQuotedEnd?, if_neg (mt (h.at?_eq_some_iff (by decide)).1 hquote), hnone]
    rfl

theorem date?_eq : date? bytes offset = (Pattern.date? rest).map (covered rest) := by
  have hword : ∀ c ∈ ".date".toList, IsAscii c := by decide
  rw [date?, plainQuotedEnd?_eq h, Pattern.date?]
  cases hquoted : plainQuoted? rest with
  | none => rfl
  | some size =>
      have hstop := h.drop size
      rw [← covered] at hstop
      simp only [Option.map_some, Option.bind_some, startsWithAnyCase_eq hstop hword]
      split
      · next hending =>
        have hlower : ((rest.drop size).take 5).map Char.toLower = ".date".toList :=
          eq_of_beq hending
        have hsize : covered (rest.drop size) 5 = 5 := byteSize_of_toLower (by decide) hlower
        rw [Option.map_some, covered_add, hsize]
        exact congrArg some (by omega)
      · rfl

theorem file?_eq : file? bytes offset = (Pattern.file? rest).map (covered rest) := by
  rw [file?, plainQuotedEnd?_eq h, Pattern.file?]
  cases hquoted : plainQuoted? rest with
  | none => rfl
  | some size =>
      have hstop := h.drop size
      rw [← covered] at hstop
      simp only [Option.map_some, Option.bind_some]
      by_cases hpoint : (rest.drop size).head? = some '.'
      · obtain ⟨behind, hbehind⟩ := List.head?_eq_some_iff.1 hpoint
        have hending := hstop
        rw [hbehind] at hending
        have hending := hending.tail_of_isAscii (by decide)
        have hfind : encodingEndings.find?
              (startsWithAnyCase bytes (offset + covered rest size + 1)) =
            encodingEndings.find? (Pattern.startsWithAnyCase · behind) := by
          have hall : ∀ ending ∈ encodingEndings, ∀ c ∈ ending, IsAscii c := by decide
          exact List.find?_congr fun ending hmem => startsWithAnyCase_eq hending (hall ending hmem)
        rw [if_pos ((hstop.at?_eq_some_iff (by decide)).2 hpoint), hfind, hbehind]
        change _ = ((encodingEndings.find? (Pattern.startsWithAnyCase · behind)).map fun ending =>
          size + 1 + ending.length).map (covered rest)
        cases hfound : encodingEndings.find? (Pattern.startsWithAnyCase · behind) with
        | none => rfl
        | some ending =>
            have hlower : ∀ ending ∈ encodingEndings, ∀ c ∈ ending, c.val ≤ 127 := by decide
            have hstarts : Pattern.startsWithAnyCase ending behind = true := by
              simpa using List.find?_some hfound
            have hsize : covered behind ending.length = ending.length :=
              byteSize_of_toLower (hlower ending (List.mem_of_find?_eq_some hfound))
                (eq_of_beq hstarts)
            simp only [Option.map_some]
            rw [Nat.add_assoc size, covered_add, hbehind, Nat.add_comm 1, covered_cons, hsize,
              utf8Size_of_isAscii (by decide)]
            exact congrArg some (by omega)
      · rw [if_neg (mt (hstop.at?_eq_some_iff (by decide)).1 hpoint)]
        split
        · next behind hbehind =>
          rw [hbehind] at hpoint
          exact absurd rfl hpoint
        · rfl

end

theorem ne_of_no_pair {c mark : Char} {rest : List Char} (hlone : c = mark → rest = [] → False)
    (hpair : ∀ next others, c = mark → rest = next :: others → False) : c ≠ mark := by
  cases rest with
  | nil => exact fun heq => hlone heq rfl
  | cons next others => exact fun heq => hpair next others heq rfl

/-- A part behind one more character. -/
theorem map_covered_cons (found : Option Nat) (offset : Nat) (c : Char) (rest : List Char) :
    (found.map (· + 1)).map (offset + covered (c :: rest) ·) =
      found.map (offset + c.utf8Size + covered rest ·) := by
  rw [Option.map_map]
  refine Option.map_congr fun size _ => ?_
  rw [Function.comp_apply, covered_cons, Nat.add_assoc]

/-- A part behind a mark of ASCII and one more character. -/
theorem map_covered_cons_cons {mark : Char} (hmark : IsAscii mark) (found : Option Nat)
    (offset : Nat) (c : Char) (rest : List Char) :
    (found.map (· + 2)).map (offset + covered (mark :: c :: rest) ·) =
      found.map (offset + 1 + c.utf8Size + covered rest ·) := by
  rw [Option.map_map]
  refine Option.map_congr fun size _ => ?_
  rw [Function.comp_apply, covered_cons, covered_cons, utf8Size_of_isAscii hmark, Nat.add_assoc,
    Nat.add_assoc]

section

variable {bytes : List UInt8} {offset : Nat} (barred : Char → Bool)

theorem quoteEnd?_of_none (h : at? bytes offset = none) : quoteEnd? bytes barred offset = none := by
  rw [quoteEnd?]
  split
  · rfl
  · next c hc =>
    rw [h] at hc
    cases hc

theorem quoteEnd?_of_some {c : Char} (h : at? bytes offset = some c) :
    quoteEnd? bytes barred offset =
      if c = '"' then some (offset + 1)
      else if c = '\\' then
        (at? bytes (offset + 1)).bind fun d =>
          if barred d then none else quoteEnd? bytes barred (offset + 2)
      else quoteEnd? bytes barred (offset + 1) := by
  rw [quoteEnd?]
  split
  · next hnone =>
    rw [h] at hnone
    cases hnone
  · next d hd =>
    obtain rfl := Option.some.inj (h.symm.trans hd)
    cases at? bytes (offset + 1) with
    | none => rfl
    | some d => rfl

/-- What is left of a character behind its first byte holds no quote. -/
theorem quoteEnd?_skip {c : Char} {rest : List Char} (h : StandsAt bytes offset (c :: rest)) :
    quoteEnd? bytes barred (offset + 1) = quoteEnd? bytes barred (offset + c.utf8Size) := by
  refine h.skip_tails fun place d hd hwide => ?_
  have hne (mark : Char) (hmark : IsAscii mark) : d ≠ mark := fun heq => hwide (heq ▸ hmark)
  rw [quoteEnd?_of_some barred hd, if_neg (hne _ (by decide)), if_neg (hne _ (by decide))]

/-- A backslash takes one byte with it, which may be the first of a wide
character. The bytes behind it are then passed over as plain ones. -/
theorem quoteEnd?_backslash {behind : List Char} (h : StandsAt bytes offset ('\\' :: behind)) :
    quoteEnd? bytes barred offset = (at? bytes (offset + 1)).bind fun d =>
      if barred d then none else quoteEnd? bytes barred (offset + 2) := by
  rw [quoteEnd?_of_some barred ((h.at?_eq_some_iff (by decide)).2 rfl), if_neg (by decide),
    if_pos rfl]

end

/-- The size of a text up to and with a closing quote. A backslash takes the
next character with it unless that is barred. -/
def quoteSize? (barred : Char → Bool) : List Char → Option Nat
  | [] => none
  | '"' :: _ => some 1
  | '\\' :: [] => none
  | '\\' :: c :: rest => if barred c then none else (quoteSize? barred rest).map (· + 2)
  | _ :: rest => (quoteSize? barred rest).map (· + 1)

theorem stringRest?_eq (rest : List Char) : stringRest? rest = quoteSize? isLineBreak rest := by
  fun_induction stringRest? rest with
  | case1 => rfl
  | case2 => rfl
  | case3 => rfl
  | case4 c rest hbreak => rw [quoteSize?, if_pos hbreak]
  | case5 c rest hbreak ih => rw [quoteSize?, if_neg hbreak, ih]
  | case6 c rest hquote hlone hpair ih => rw [quoteSize?, ih] <;> assumption

/-- A closing quote is found at the same place. -/
theorem quoteEnd?_eq {bytes : List UInt8} {offset : Nat} {rest : List Char}
    {barred : Char → Bool} (htest : IsAsciiTest barred) (h : StandsAt bytes offset rest) :
    quoteEnd? bytes barred offset = (quoteSize? barred rest).map (offset + covered rest ·) := by
  fun_induction quoteSize? barred rest generalizing offset with
  | case1 => exact quoteEnd?_of_none barred h.at?_nil
  | case2 behind =>
      rw [quoteEnd?_of_some barred ((h.at?_eq_some_iff (by decide)).2 rfl), if_pos rfl,
        Option.map_some, covered_cons, covered_zero]
      rfl
  | case3 =>
      rw [quoteEnd?_backslash barred h, (h.tail_of_isAscii (by decide)).at?_nil]
      rfl
  | case4 c behind hbarred =>
      obtain ⟨d, hd, htells⟩ := (h.tail_of_isAscii (by decide)).at?_cons
      rw [quoteEnd?_backslash barred h, hd, Option.bind_some, htells.condition_eq htest,
        if_pos hbarred]
      rfl
  | case5 c behind hbarred ih =>
      have hbehind := h.tail_of_isAscii (by decide)
      obtain ⟨d, hd, htells⟩ := hbehind.at?_cons
      have hstep : quoteEnd? bytes barred (offset + 2) =
        quoteEnd? bytes barred (offset + 1 + c.utf8Size) := quoteEnd?_skip barred hbehind
      rw [quoteEnd?_backslash barred h, hd, Option.bind_some, htells.condition_eq htest,
        if_neg hbarred, hstep, ih hbehind.tail, map_covered_cons_cons (by decide)]
  | case6 c behind hquote hlone hpair ih =>
      obtain ⟨d, hd, htells⟩ := h.at?_cons
      have hbackslash := ne_of_no_pair hlone hpair
      rw [quoteEnd?_of_some barred hd, if_neg (mt (htells.eq_iff (by decide)).1 hquote),
        if_neg (mt (htells.eq_iff (by decide)).1 hbackslash), quoteEnd?_skip barred h, ih h.tail,
        map_covered_cons]

/-- A string is matched over bytes as over characters, even where a backslash
protects a wide character. -/
theorem string?_eq {bytes : List UInt8} {offset : Nat} {rest : List Char}
    (h : StandsAt bytes offset rest) :
    string? bytes offset = (Pattern.string? rest).map (covered rest) := by
  by_cases hquote : rest.head? = some '"'
  · obtain ⟨behind, rfl⟩ := List.head?_eq_some_iff.1 hquote
    rw [string?, if_pos ((h.at?_eq_some_iff (by decide)).2 hquote),
      quoteEnd?_eq isAsciiTest_isLineBreak (h.tail_of_isAscii (by decide)), Pattern.string?,
      stringRest?_eq, Option.map_map, Option.map_map]
    refine Option.map_congr fun size _ => ?_
    simp only [Function.comp_apply, covered_cons, utf8Size_of_isAscii (show IsAscii '"' by decide)]
    omega
  · have hnone : Pattern.string? rest = none := by
      unfold Pattern.string?
      split
      · exact absurd rfl hquote
      · rfl
    rw [string?, if_neg (mt (h.at?_eq_some_iff (by decide)).1 hquote), hnone]
    rfl

theorem regExpEnd?_of_none {bytes : List UInt8} {offset : Nat} (h : at? bytes offset = none)
    (opening : Nat) : regExpEnd? bytes opening offset = none := by
  rw [regExpEnd?]
  split
  · rfl
  · next c hc =>
    rw [h] at hc
    cases hc

theorem regExpEnd?_of_some {bytes : List UInt8} {offset : Nat} {c : Char}
    (h : at? bytes offset = some c) (opening : Nat) :
    regExpEnd? bytes opening offset =
      if c = '/' ∧ opening + 1 < offset then some offset
      else if c = '/' ∨ isLineBreak c then none
      else if c = '\\' then
        (at? bytes (offset + 1)).bind fun d =>
          if isLineBreak d then none else regExpEnd? bytes opening (offset + 2)
      else regExpEnd? bytes opening (offset + 1) := by
  rw [regExpEnd?]
  split
  · next hnone =>
    rw [h] at hnone
    cases hnone
  · next d hd =>
    obtain rfl := Option.some.inj (h.symm.trans hd)
    cases at? bytes (offset + 1) with
    | none => rfl
    | some d => rfl

/-- What is left of a character behind its first byte holds no slash and no line
break. -/
theorem regExpEnd?_skip {bytes : List UInt8} {offset : Nat} {c : Char} {rest : List Char}
    (h : StandsAt bytes offset (c :: rest)) (opening : Nat) :
    regExpEnd? bytes opening (offset + 1) = regExpEnd? bytes opening (offset + c.utf8Size) := by
  refine h.skip_tails fun place d hd hwide => ?_
  have hne (mark : Char) (hmark : IsAscii mark) : d ≠ mark := fun heq => hwide (heq ▸ hmark)
  have hbreak : ¬isLineBreak d := by
    simp [isLineBreak, hne '\n' (by decide), hne '\r' (by decide)]
  rw [regExpEnd?_of_some hd, if_neg fun heq => hne _ (by decide) heq.1,
    if_neg (not_or.2 ⟨hne _ (by decide), hbreak⟩), if_neg (hne _ (by decide))]

theorem regExpEnd?_backslash {bytes : List UInt8} {offset : Nat} {behind : List Char}
    (h : StandsAt bytes offset ('\\' :: behind)) (opening : Nat) :
    regExpEnd? bytes opening offset = (at? bytes (offset + 1)).bind fun d =>
      if isLineBreak d then none else regExpEnd? bytes opening (offset + 2) := by
  rw [regExpEnd?_of_some ((h.at?_eq_some_iff (by decide)).2 rfl), if_neg (by simp),
    if_neg (by decide), if_pos rfl]

/-- A regular expression is over at the same place if a slash does not open
it. -/
theorem regExpEnd?_eq {bytes : List UInt8} {opening offset : Nat} {rest : List Char}
    (h : StandsAt bytes offset rest) (hopening : opening < offset)
    (hslash : rest.head? = some '/' → opening + 1 < offset) :
    (regExpEnd? bytes opening offset).map (· + 1) =
      (regExpRest? rest).map (offset + covered rest ·) := by
  fun_induction regExpRest? rest generalizing offset with
  | case1 => rw [regExpEnd?_of_none h.at?_nil]; rfl
  | case2 behind =>
      rw [regExpEnd?_of_some ((h.at?_eq_some_iff (by decide)).2 rfl), if_pos ⟨rfl, hslash rfl⟩,
        Option.map_some, Option.map_some, covered_cons, covered_zero]
      rfl
  | case3 =>
      rw [regExpEnd?_backslash h, (h.tail_of_isAscii (by decide)).at?_nil]
      rfl
  | case4 c behind hbreak =>
      obtain ⟨d, hd, htells⟩ := (h.tail_of_isAscii (by decide)).at?_cons
      rw [regExpEnd?_backslash h, hd, Option.bind_some, htells.condition_eq isAsciiTest_isLineBreak,
        if_pos hbreak]
      rfl
  | case5 c behind hbreak ih =>
      have hbehind := h.tail_of_isAscii (by decide)
      obtain ⟨d, hd, htells⟩ := hbehind.at?_cons
      have hstep : regExpEnd? bytes opening (offset + 2) =
        regExpEnd? bytes opening (offset + 1 + c.utf8Size) := regExpEnd?_skip hbehind opening
      have hrest := ih hbehind.tail (by omega) (fun _ => by omega)
      rw [regExpEnd?_backslash h, hd, Option.bind_some, htells.condition_eq isAsciiTest_isLineBreak,
        if_neg hbreak, hstep, hrest, map_covered_cons_cons (by decide)]
  | case6 c behind hclose hlone hpair hbreak =>
      obtain ⟨d, hd, htells⟩ := h.at?_cons
      have hother := mt (htells.eq_iff (by decide)).1 hclose
      rw [regExpEnd?_of_some hd, if_neg fun heq => hother heq.1,
        if_pos (.inr ((htells.condition_eq isAsciiTest_isLineBreak).trans hbreak))]
      rfl
  | case7 c behind hclose hlone hpair hbreak ih =>
      obtain ⟨d, hd, htells⟩ := h.at?_cons
      have hother := mt (htells.eq_iff (by decide)).1 hclose
      have hbackslash := mt (htells.eq_iff (by decide)).1 (ne_of_no_pair hlone hpair)
      have hline : ¬isLineBreak d := by rwa [htells.condition_eq isAsciiTest_isLineBreak]
      have hsize := c.utf8Size_pos
      have hrest := ih h.tail (by omega) (fun _ => by omega)
      rw [regExpEnd?_of_some hd, if_neg fun heq => hother heq.1, if_neg (not_or.2 ⟨hother, hline⟩),
        if_neg hbackslash, regExpEnd?_skip h, hrest, map_covered_cons]

/-- A regular expression is matched over bytes as over characters. Its flags are
counted behind the closing slash. -/
theorem regExp?_eq {bytes : List UInt8} {offset : Nat} {rest : List Char}
    (h : StandsAt bytes offset rest) :
    regExp? bytes offset = (Pattern.regExp? rest).map (covered rest) := by
  by_cases hopen : rest.head? = some '/'
  · obtain ⟨body, rfl⟩ := List.head?_eq_some_iff.1 hopen
    have hbody := h.tail_of_isAscii (by decide)
    rw [regExp?, if_pos ((h.at?_eq_some_iff (by decide)).2 hopen)]
    by_cases hempty : body.head? = some '/'
    · obtain ⟨behind, rfl⟩ := List.head?_eq_some_iff.1 hempty
      rw [regExpEnd?_of_some ((hbody.at?_eq_some_iff (by decide)).2 hempty),
        if_neg fun hlt => Nat.lt_irrefl _ hlt.2, if_pos (.inl rfl)]
      rfl
    · have hend := regExpEnd?_eq hbody (Nat.lt_succ_self offset) fun heq => absurd heq hempty
      have hchar : Pattern.regExp? ('/' :: body) = (regExpRest? body).map fun size =>
          1 + size + ((body.drop size).takeWhile isRegExpFlag).length := by
        unfold Pattern.regExp?
        split
        · next heq =>
          cases heq
          exact absurd rfl hempty
        · next heq =>
          cases heq
          rfl
        · next hno => exact absurd rfl (hno body)
      have hsplit : (regExpEnd? bytes offset (offset + 1)).map (fun stop =>
            stop + 1 + countWhile bytes (stop + 1) isRegExpFlag - offset) =
          ((regExpEnd? bytes offset (offset + 1)).map (· + 1)).map fun stop =>
            stop + countWhile bytes stop isRegExpFlag - offset := by
        rw [Option.map_map]
        rfl
      rw [hsplit, hend, hchar, Option.map_map, Option.map_map]
      refine Option.map_congr fun size _ => ?_
      have hflags := hbody.drop size
      rw [← covered] at hflags
      simp only [Function.comp_apply, hflags.countWhile_eq isAsciiTest_isRegExpFlag]
      rw [Nat.add_comm 1, Nat.add_right_comm size 1, covered_cons, covered_add, covered_takeWhile,
        utf8Size_of_isAscii (by decide)]
      omega
  · have hnone : Pattern.regExp? rest = none := by
      unfold Pattern.regExp?
      split
      · rfl
      · exact absurd rfl hopen
      · rfl
    rw [regExp?, if_neg (mt (h.at?_eq_some_iff (by decide)).1 hopen), hnone]
    rfl

end ConfigNotation.Bytes
