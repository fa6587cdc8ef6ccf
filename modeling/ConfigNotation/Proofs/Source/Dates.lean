import ConfigNotation.Proofs.Calendar.Reading
import ConfigNotation.Proofs.Source.Quoted
import ConfigNotation.Proofs.Syntax.Literals
import ConfigNotation.Source.Writer

/-!
Date literals that are written for an instant. A date needs no blanks around it: no pattern goes
on behind its ending, and the string that it starts with is shorter.
-/

namespace ConfigNotation

open Text Pattern

namespace Pattern

section

variable {body : List Char} (hbody : ∀ c ∈ body, IsPlain c ∧ isLineBreak c = false)

include hbody

theorem plainQuoted?_quotes (rest : List Char) :
    plainQuoted? ('"' :: (body ++ '"' :: rest)) = some (body.length + 2) := by
  have hinner : (body ++ '"' :: rest).takeWhile (fun c => c != '"' && !isLineBreak c) = body := by
    apply takeWhile_append_stop
    · intro c hc
      rw [(hbody c hc).2, bne_iff_ne.2 (hbody c hc).1.1]
      rfl
    · rintro c ⟨⟩
      rfl
  rw [plainQuoted?]
  simp only [hinner, List.drop_left]
  rfl

/-- A text in quotes with the ending of dates is a date wherever it stands. -/
theorem isMark_date (hreturn : '\r' ∉ body) :
    IsMark .date ('"' :: (body ++ '"' :: ".date".toList)) where
  starts := ⟨'"', _, rfl, by decide⟩
  verbatim := by
    have hquotes := isVerbatim_quotes (.of_plain fun c hc => (hbody c hc).1) hreturn
    have hending : IsVerbatim ".date".toList := .of_codeChars (by decide)
    simpa using hquotes.append hending
  longest previous rest _ := by
    have hspelled : '"' :: (body ++ '"' :: ".date".toList) ++ rest =
        '"' :: (body ++ '"' :: (".date".toList ++ rest)) := by simp
    have hlength : ('"' :: (body ++ '"' :: ".date".toList)).length = body.length + 2 + 5 := by simp
    have hquoted := plainQuoted?_quotes hbody (".date".toList ++ rest)
    have hdrop : ('"' :: (body ++ '"' :: (".date".toList ++ rest))).drop (body.length + 2) =
        ".date".toList ++ rest := by simp
    rw [hspelled, hlength]
    generalize htail : body ++ '"' :: (".date".toList ++ rest) = tail at *
    have hlongest : longestMatch previous ('"' :: tail) =
        [(⟨.date, fun _ => date?⟩ : Pattern), ⟨.file, fun _ => file?⟩,
          ⟨.string, fun _ => Pattern.string?⟩].foldl (prefer previous ('"' :: tail)) none := by
      rw [longestMatch, all_eq]
      rfl
    have hdate : date? ('"' :: tail) = some (body.length + 2 + 5) := by
      rw [date?, hquoted, Option.bind_some, hdrop]
      rfl
    have hfile : file? ('"' :: tail) = none := by
      rw [file?, hquoted, Option.bind_some, hdrop]
      rfl
    have hstring : Pattern.string? ('"' :: tail) = some (body.length + 2) := by
      rw [← htail]
      exact (StaysOpen.of_plain fun c hc => (hbody c hc).1).string?
    simp [hlongest, prefer, hdate, hfile, hstring, matchSize]

end

end Pattern

namespace Source

/-- The text of an instant is put in quotes as it is. -/
theorem body_chars (instant : Instant) : body instant.chars = instant.chars := by
  have hsame : ∀ c ∈ Instant.textChars, quotedChar c = [c] := by decide
  rw [body, List.flatMap_congr fun c hc => hsame c (instant.mem_textChars c hc)]
  exact List.flatMap_singleton' _

theorem leafText_date (instant : Instant) :
    (leafText (.date instant)).toList = '"' :: (instant.chars ++ '"' :: ".date".toList) := by
  rw [leafText, String.toList_append, quoted_toList, Instant.text, String.toList_ofList, body_chars]
  simp

theorem isMark_leafText_date (instant : Instant) :
    IsMark .date (leafText (.date instant)).toList := by
  have hplain : ∀ c ∈ Instant.textChars, IsPlain c ∧ isLineBreak c = false := by
    decide
  rw [leafText_date]
  exact isMark_date (fun c hc => hplain c (instant.mem_textChars c hc)) fun hreturn =>
    absurd (instant.mem_textChars _ hreturn) (by decide)

end Source

/-- The date token that is written for an instant stands for this instant, but
for what is less than a millisecond. -/
theorem Literal.ofToken_date {instant : Instant}
    (hyear : 0 ≤ instant.date.year ∧ instant.date.year ≤ 9999)
    (hnanos : instant.nanos < 1000000000) (workspace : Workspace) {token : Token}
    (hkind : token.kind = .date) (htext : token.text = Source.leafText (.date instant)) :
    Literal.ofToken workspace token = .ok (.date instant.toMillis) := by
  rw [Literal.ofToken, hkind, htext, Source.leafText_date]
  simp only [Literal.dateBody_quoted (show ".date".toList.map Char.toLower = _ from rfl),
    Instant.ofText?_chars hyear hnanos]

/-- The literal that is written for an instant is left as it is where comments
are blanked, and wherever it stands it is one date token, with whatever comes
next behind it. The token stands for the instant without what is less than a
millisecond. -/
theorem written_date_reads_back {instant : Instant}
    (hyear : 0 ≤ instant.date.year ∧ instant.date.year ≤ 9999)
    (hnanos : instant.nanos < 1000000000) :
    IsVerbatim (Source.leafText (.date instant)).toList ∧
      ∀ offset position previous rest, ∃ token : Token,
        token.kind = .date ∧ token.text = Source.leafText (.date instant) ∧
          tokensFrom offset position previous ((Source.leafText (.date instant)).toList ++ rest) =
            (tokensFrom (offset + byteSize (Source.leafText (.date instant)).toList)
              (position.after (Source.leafText (.date instant)).toList)
              (Source.leafText (.date instant)).toList.getLast? rest).map (token :: ·) ∧
          ∀ workspace, Literal.ofToken workspace token = .ok (.date instant.toMillis) := by
  have hmark := Source.isMark_leafText_date instant
  refine ⟨hmark.verbatim, fun offset position previous rest => ?_⟩
  have hcut := @IsToken.tokensFrom previous _ _ _ rest hmark.toIsToken trivial offset position
  rw [lastOr, Option.or_none, String.ofList_toList] at hcut
  exact ⟨_, rfl, rfl, hcut, fun workspace =>
    Literal.ofToken_date hyear hnanos workspace rfl rfl⟩

/-- An instant before 1970, in a leap year, with more than milliseconds. -/
def beforeEpoch : Instant := ⟨-58060801, 123456789⟩

theorem written_date_reads_back_before_epoch :
    IsVerbatim (Source.leafText (.date beforeEpoch)).toList ∧
      ∀ offset position previous rest, ∃ token : Token,
        token.kind = .date ∧ token.text = "\"1968-02-28T23:59:59.123Z\".date" ∧
          tokensFrom offset position previous ((Source.leafText (.date beforeEpoch)).toList ++ rest) =
            (tokensFrom (offset + byteSize (Source.leafText (.date beforeEpoch)).toList)
              (position.after (Source.leafText (.date beforeEpoch)).toList)
              (Source.leafText (.date beforeEpoch)).toList.getLast? rest).map (token :: ·) ∧
          ∀ workspace, Literal.ofToken workspace token = .ok (.date ⟨-58060801, 123000000⟩) :=
  @written_date_reads_back beforeEpoch (by decide) (by decide)

end ConfigNotation
