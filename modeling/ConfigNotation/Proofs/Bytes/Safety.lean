import ConfigNotation.Proofs.Bytes.Interpolation
import ConfigNotation.Proofs.Bytes.Scanner
import ConfigNotation.Proofs.Syntax.Literals

/-!
No offset into the bytes of a text makes a step panic: not where a text is cut into tokens, where
the texts of literals are taken apart, or where the body of a string is put together. The
offsets that are found are those of the parts that the same steps find over characters, so they
lie on boundaries inside the text.
-/

namespace ConfigNotation.Bytes

open Text Pattern

/-- The radix and the digits of an integer without its sign. A mark of two bytes
is looked at and cut off. -/
def radixDigits? (body : List Char) : Checked (Nat × List Char) :=
  match takeBytes? 2 body with
  | some ['0', mark] =>
      if mark = 'x' ∨ mark = 'X' then (dropBytes? 2 body).map (16, ·)
      else if mark = 'o' ∨ mark = 'O' then (dropBytes? 2 body).map (8, ·)
      else if mark = 'b' ∨ mark = 'B' then (dropBytes? 2 body).map (2, ·)
      else some (10, body)
  | _ => some (10, body)

def splitRadix? (text : List Char) : Checked (Bool × Nat × List Char) :=
  match text with
  | '-' :: rest => (radixDigits? rest).map (true, ·)
  | _ => (radixDigits? text).map (false, ·)

/-- What stands between the quotes of a date, with the last five bytes cut
off. -/
def dateBody? (text : List Char) : Checked (List Char) :=
  (takeBytes? (byteSize text - 5) text).map unquoted

/-- The radix and the digits of an integer without its sign, over characters. -/
def radixDigits : List Char → Nat × List Char
  | '0' :: mark :: digits =>
      if mark = 'x' ∨ mark = 'X' then (16, digits)
      else if mark = 'o' ∨ mark = 'O' then (8, digits)
      else if mark = 'b' ∨ mark = 'B' then (2, digits)
      else (10, '0' :: mark :: digits)
  | body => (10, body)

theorem splitRadix_minus (rest : List Char) :
    Literal.splitRadix ('-' :: rest) = (true, radixDigits rest) := by
  by_cases hzero : ∃ mark digits, rest = '0' :: mark :: digits
  · obtain ⟨mark, digits, rfl⟩ := hzero
    grind [Literal.splitRadix, radixDigits]
  · have hother (mark : Char) (digits : List Char) : rest ≠ '0' :: mark :: digits :=
      fun h => hzero ⟨mark, digits, h⟩
    -- Both matches fall through to their last case by `hother`.
    simp [Literal.splitRadix, radixDigits]

theorem splitRadix_plain {text : List Char} (hplain : ∀ rest, text ≠ '-' :: rest) :
    Literal.splitRadix text = (false, radixDigits text) := by
  by_cases hzero : ∃ mark digits, text = '0' :: mark :: digits
  · obtain ⟨mark, digits, rfl⟩ := hzero
    grind [Literal.splitRadix, radixDigits]
  · have hother (mark : Char) (digits : List Char) : text ≠ '0' :: mark :: digits :=
      fun h => hzero ⟨mark, digits, h⟩
    simp [Literal.splitRadix, radixDigits]

theorem radixDigits?_eq (body : List Char) : radixDigits? body = some (radixDigits body) := by
  unfold radixDigits?
  split
  · next mark hmark =>
    obtain ⟨digits, rfl, hsize⟩ := takeBytes?_eq_some_iff.1 hmark
    have hdigits : dropBytes? 2 (['0', mark] ++ digits) = some digits := by
      rw [← hsize, dropBytes?_append]
    rw [hdigits, List.cons_append, List.cons_append, List.nil_append, radixDigits]
    split_ifs
    all_goals rfl
  · next hnone =>
    unfold radixDigits
    split
    · next mark digits =>
      -- A mark of more than one byte ends behind the second byte, so it is none of the letters.
      have hwide : mark.utf8Size ≠ 1 := by
        intro hsize
        refine hnone mark (takeBytes?_eq_some_iff.2 ⟨digits, rfl, ?_⟩)
        rw [byteSize_cons, byteSize_cons, hsize]
        rfl
      have hother (c : Char) (hc : IsAscii c) : mark ≠ c := by
        rintro rfl
        exact hwide (utf8Size_of_isAscii hc)
      simp only [hother _ (show IsAscii 'x' by decide), hother _ (show IsAscii 'X' by decide),
        hother _ (show IsAscii 'o' by decide), hother _ (show IsAscii 'O' by decide),
        hother _ (show IsAscii 'b' by decide), hother _ (show IsAscii 'B' by decide), or_self,
        if_false]
    · rfl

theorem splitRadix?_eq (text : List Char) :
    splitRadix? text = some (Literal.splitRadix text) := by
  unfold splitRadix?
  split
  · next rest => rw [radixDigits?_eq, splitRadix_minus, Option.map_some]
  · next hplain => rw [radixDigits?_eq, splitRadix_plain hplain, Option.map_some]

/-- The ending of a date has five bytes, in either case of its letters. -/
theorem dateBody?_eq {token : Token} (h : token.IsMatched) (hkind : token.kind = .date) :
    dateBody? token.text.toList = some (Literal.dateBody token.text.toList) := by
  obtain ⟨text, size, hdate, htext⟩ := h.length?_of_kind Pattern.date? (by
    rw [hkind]
    rfl)
  obtain ⟨body, ending, htake, -, hending⟩ := date?_eq_some hdate
  have hsize : byteSize ending = 5 := byteSize_of_toLower (by decide) hending
  have hsplit : token.text.toList = '"' :: (body ++ ['"']) ++ ending := by
    rw [htext, htake]
    simp
  rw [dateBody?, Literal.dateBody, hsplit, byteSize_append, hsize, Nat.add_sub_cancel,
    takeBytes?_append]
  rfl

/-- Every text is scanned without a panic, into the tokens that it has, and a
step that cuts off a token takes at least one byte. The date literals among
them and all integers are taken apart at boundaries. Every body is put
together without a panic, whatever is looked up, and each step takes at least
one byte. -/
theorem offsets_on_boundaries :
    (∀ text, scan? text = some (tokensFrom 0 .start none text)) ∧
    (∀ text cursor token next, step? text cursor = some (.cut token next) →
      cursor.offset < next.offset) ∧
    (∀ text tokens, scan? text = some (.ok tokens) → ∀ token ∈ tokens, token.kind = .date →
      dateBody? token.text.toList = some (Literal.dateBody token.text.toList)) ∧
    (∀ text, splitRadix? text = some (Literal.splitRadix text)) ∧
    (∀ (σ : Type) (lookup : String → StateM σ (Option Value)) (body : List Char) (state : σ),
      interpolate? lookup body state = some ((Template.interpolate lookup body).run state)) ∧
    ∀ (σ : Type) (lookup : String → StateM σ (Option Value)) (c : Char) (text written : List Char)
      (size : Nat) (state after : σ),
      piece? lookup c text state = some ((written, size), after) → 0 < size := by
  refine ⟨scan?_eq, fun text cursor token next h => (step?_lt h).1, ?_, splitRadix?_eq,
    fun σ => interpolate?_eq, fun σ lookup c text written size state after => piece?_pos⟩
  intro text tokens hscan token hmember hkind
  rw [scan?_eq, Option.some.injEq] at hscan
  exact dateBody?_eq (tokensFrom_matched hscan token hmember (by simp [hkind])) hkind

/-- A date that holds a character of two bytes. -/
def dated : List Char := '"' :: 'é' :: '"' :: ".date".toList

def nowhere (_ : String) : StateM Unit (Option Value) := return none

theorem offsets_on_boundaries_wide :
    (∃ token next, step? dated (.behind []) = some (.cut token next) ∧
      (Cursor.behind []).offset < next.offset ∧
      scan? dated = some (.ok [token, .endAt next.offset next.position]) ∧
      token.kind = .date ∧
      dateBody? token.text.toList = some (Literal.dateBody token.text.toList)) ∧
    splitRadix? "0é".toList = some (false, 10, "0é".toList) ∧
    piece? nowhere '\\' "\\é".toList () = some ((['\\'], 1), ()) ∧ 0 < 1 := by
  have hchosen : IsChosen ([] : List Char).getLast? (dated ++ []) .date
      (('é' :: '"' :: ".date".toList).length + 1) :=
    longestMatch_eq_some_iff.1 (by decide +kernel)
  have hskip : skipBlanks? dated (.behind []) = some (.behind []) :=
    skipBlanks?_behind [] [] nofun (show ∀ c ∈ dated.head?, isBlank c = false by
      rintro _ ⟨⟩
      decide)
  have hstep : step? dated (.behind []) =
      some (.cut (tokenAt [] .date dated) (.behind dated)) := by
    rw [step?, hskip]
    exact cut?_token hchosen
  have hscan : scan? dated = some (.ok [tokenAt [] .date dated,
      .endAt (byteSize dated) (Position.start.after dated)]) := by
    have htokens : tokensBehind [] dated =
        (tokenAt [] .date dated :: ·) <$> tokensBehind dated [] :=
      tokensBehind_token (show isBlank '"' = false by decide) hchosen
    rw [offsets_on_boundaries.1]
    change some (tokensBehind [] dated) = _
    rw [htokens, tokensBehind_nil]
    rfl
  have hpiece : piece? nowhere '\\' "\\é".toList () = some ((['\\'], 1), ()) := by rfl
  refine ⟨⟨_, _, hstep, offsets_on_boundaries.2.1 _ _ _ _ hstep, hscan, rfl,
    offsets_on_boundaries.2.2.1 _ _ hscan _ List.mem_cons_self rfl⟩, ?_, hpiece,
    offsets_on_boundaries.2.2.2.2.2 _ _ _ _ _ _ _ _ hpiece⟩
  rw [offsets_on_boundaries.2.2.2.1]
  rfl

end ConfigNotation.Bytes
