import ConfigNotation.Proofs.Number.Decoding
import ConfigNotation.Proofs.Source.Quoted
import ConfigNotation.Proofs.Syntax.AliasEnd
import ConfigNotation.Proofs.Token.RegExps

/-!
Literals are described twice, by the patterns that cut them off and by what splits their texts
again to read them. Both take a token for the same: what one of them finds between quotes,
behind a point or as flags is what the other one reads.
-/

namespace ConfigNotation

open Text Pattern Literal

namespace Pattern

/-- A string is its quotes and what stands between them, which does not close
it. -/
theorem string?_eq_some {text : List Char} {size : Nat} (h : string? text = some size) :
    ∃ body, text.take size = '"' :: (body ++ ['"']) ∧ StaysOpen body := by
  obtain ⟨rest, inner, rfl, hrest, rfl⟩ := string?_spec h
  obtain ⟨body, hbody, hopen⟩ := stringRest?_staysOpen hrest
  exact ⟨body, by rw [List.take_succ_cons, hbody], hopen⟩

/-- A date is a text in quotes, which holds none, and its ending in either
case. -/
theorem date?_eq_some {text : List Char} {size : Nat} (h : date? text = some size) :
    ∃ body ending, text.take size = '"' :: (body ++ '"' :: ending) ∧ '"' ∉ body ∧
      ending.map Char.toLower = ".date".toList := by
  obtain ⟨quoted, hquoted, hending⟩ := Option.bind_eq_some_iff.1 h
  rw [Option.ite_none_right_eq_some] at hending
  obtain ⟨hending, hsize⟩ := hending
  cases hsize
  obtain ⟨body, htake, hbody⟩ := plainQuoted?_spec hquoted
  refine ⟨body, (text.drop quoted).take 5, ?_, fun hquote => (hbody _ hquote).1 rfl, ?_⟩
  · rw [List.take_add, htake]
    simp
  · exact eq_of_beq hending

/-- A file is a path in quotes, which holds none, and one of the endings in
either case. -/
theorem file?_eq_some {text : List Char} {size : Nat} (h : file? text = some size) :
    ∃ path ending, text.take size = '"' :: (path ++ '"' :: '.' :: ending) ∧ '"' ∉ path ∧
      ending.map Char.toLower ∈ encodingEndings := by
  obtain ⟨quoted, hquoted, hending⟩ := Option.bind_eq_some_iff.1 h
  obtain ⟨path, htake, hpath⟩ := plainQuoted?_spec hquoted
  split at hending
  · next rest hrest =>
    obtain ⟨ending, hfind, rfl⟩ := Option.map_eq_some_iff.1 hending
    have hstarts : startsWithAnyCase ending rest = true := by simpa using List.find?_some hfind
    refine ⟨path, rest.take ending.length, ?_, fun hquote => (hpath _ hquote).1 rfl, ?_⟩
    · rw [Nat.add_assoc, List.take_add, htake, hrest, Nat.add_comm 1, List.take_succ_cons]
      simp
    · rw [eq_of_beq hstarts]
      exact List.mem_of_find?_eq_some hfind
  · cases hending

end Pattern

/-- Every ending that the scanner knows names an encoding. -/
theorem Encoding.ofChars?_of_ending {ending : List Char}
    (h : ending.map Char.toLower ∈ encodingEndings) :
    ∃ encoding, Encoding.ofChars? ending = some encoding := by
  have hnamed : ∀ name ∈ encodingEndings,
      (all.find? (·.name.toList == name.filter (· != '-'))).isSome = true := by decide +kernel
  have hdash : (ending.filter (· != '-')).map Char.toLower =
      (ending.map Char.toLower).filter (· != '-') := by
    rw [List.filter_map]
    congr 1
    apply List.filter_congr
    intro c _
    by_cases hc : c = '-'
    · rw [hc]
      rfl
    · have hlower : c.toLower ≠ '-' := fun heq => hc (eq_of_toLower heq rfl)
      exact (bne_iff_ne.2 hc).trans (bne_iff_ne.2 hlower).symm
  apply Option.isSome_iff_exists.1
  rw [Encoding.ofChars?, hdash]
  exact hnamed _ h

/-- Finds the file that a path leads to, with the encoding that it is read by. -/
def Workspace.findFile (workspace : Workspace) (path : List Char) (encoding : Encoding) :
    Except ParseFault FileRef :=
  let path := workspace.config.base.resolve ⟨String.ofList path⟩
  if !workspace.files.isPresent path then .error (.missingFile path)
  else if !workspace.files.isFile path then .error (.notAFile path)
  else .ok ⟨path, encoding⟩

namespace Literal

theorem readFile_quoted {workspace : Workspace} {path ending : List Char} {encoding : Encoding}
    (hending : '"' ∉ ending) (hencoding : Encoding.ofChars? ending = some encoding) :
    readFile workspace ('"' :: (path ++ '"' :: '.' :: ending)) =
      workspace.findFile path encoding := by
  have hquote : '"' ∉ ['.'] ++ ending := by simpa using hending
  have hsplit : splitAtLast? "\".".toList ('"' :: (path ++ '"' :: '.' :: ending)) =
      some ('"' :: path, ending) := splitAtLast?_append ('"' :: path) hquote
  rw [readFile, hsplit, Option.getD_some]
  simp only [hencoding]
  rfl

theorem dateBody_quoted {body ending : List Char} (h : ending.map Char.toLower = ".date".toList) :
    dateBody ('"' :: (body ++ '"' :: ending)) = body := by
  have hending : byteSize ending = 5 := byteSize_of_toLower (by decide) h
  have htext : '"' :: (body ++ '"' :: ending) = '"' :: (body ++ ['"']) ++ ending := by simp
  rw [dateBody, htext, byteSize_append, hending, Nat.add_sub_cancel, takeBytes?_append,
    Option.getD_some, unquoted_quotes]

end Literal

/-- What the scanner cuts off as a literal is what it is read as, and whatever
cannot be read is refused for what stands in it. -/
structure Token.ReadsAsScanned (workspace : Workspace) (token : Token) : Prop where
  string : token.kind = .string → ∃ body, token.text.toList = '"' :: (body ++ ['"']) ∧
    ofToken workspace token = .ok (.string (String.ofList body))
  file : token.kind = .file → ∃ path ending encoding,
    token.text.toList = '"' :: (path ++ '"' :: '.' :: ending) ∧ '"' ∉ path ∧
      Encoding.ofChars? ending = some encoding ∧
      ofToken workspace token = (workspace.findFile path encoding).map .file
  /-- No ending of a file is unknown where the scanner lets it pass. -/
  encoding : ∀ name, ofToken workspace token ≠ .error (.unknownEncoding name)
  date : token.kind = .date → ∃ body ending,
    token.text.toList = '"' :: (body ++ '"' :: ending) ∧ '"' ∉ body ∧
      ending.map Char.toLower = ".date".toList ∧
      ofToken workspace token =
        match Instant.ofText? body with
        | some value => .ok (.date value)
        | none => .error (.invalidDate (String.ofList body))
  regExp : token.kind = .regExp → ∃ pattern flags,
    token.text.toList = '/' :: (pattern ++ '/' :: flags) ∧ pattern ≠ [] ∧
      (∀ c ∈ flags, c ∈ "igsmuy".toList) ∧
      ofToken workspace token =
        if Regex.isValid pattern flags then
          .ok (.regExp ⟨String.ofList pattern, String.ofList flags⟩)
        else .error (.invalidRegExp (String.ofList pattern)
          (workspace.explain pattern flags))
  /-- A number is refused exactly if underscores only stand behind the mark of
  its radix or in its exponent. -/
  number : token.kind = .number → ∃ negative number, NumberText.WellFormed number ∧
    token.text.toList = minusChars negative ++ number.chars ∧
      (¬number.LacksDigits → ∃ value, readNumber? token.text.toList = some value ∧
        ofToken workspace token = .ok (.number value)) ∧
      (number.LacksDigits → ofToken workspace token = .error (.invalidNumber token.text))
  /-- So is an integer of any size if underscores only stand behind the mark of
  its radix. -/
  bigInt : token.kind = .bigInt → ∃ integer : IntegerText, integer.WellFormed ∧
    token.text.toList = integer.chars ∧
      (integer.HasDigit → ofToken workspace token = .ok (.bigInt integer.value)) ∧
      (¬integer.HasDigit → integer.radix ≠ .decimal ∧
        ofToken workspace token = .error (.invalidBigInt token.text))

namespace Token.IsMatched

variable {token : Token} (h : token.IsMatched) (workspace : Workspace)

include h

theorem reads_string (hkind : token.kind = .string) :
    ∃ body, token.text.toList = '"' :: (body ++ ['"']) ∧
      ofToken workspace token = .ok (.string (String.ofList body)) := by
  obtain ⟨text, size, hstring, htext⟩ := h.length?_of_kind Pattern.string? (by
    rw [hkind]
    rfl)
  obtain ⟨body, htake, -⟩ := string?_eq_some hstring
  rw [htake] at htext
  refine ⟨body, htext, ?_⟩
  rw [ofToken, hkind, htext, unquoted_quotes]

theorem reads_file (hkind : token.kind = .file) :
    ∃ path ending encoding, token.text.toList = '"' :: (path ++ '"' :: '.' :: ending) ∧
      '"' ∉ path ∧ Encoding.ofChars? ending = some encoding ∧
      ofToken workspace token = (workspace.findFile path encoding).map .file := by
  obtain ⟨text, size, hfile, htext⟩ := h.length?_of_kind Pattern.file? (by
    rw [hkind]
    rfl)
  obtain ⟨path, ending, htake, hpath, hknown⟩ := file?_eq_some hfile
  rw [htake] at htext
  have hending : '"' ∉ ending := by
    have hplain : ∀ name ∈ encodingEndings, '"' ∉ name := by decide
    exact fun hquote => hplain _ hknown (List.mem_map_of_mem hquote)
  obtain ⟨encoding, hencoding⟩ := Encoding.ofChars?_of_ending hknown
  refine ⟨path, ending, encoding, htext, hpath, hencoding, ?_⟩
  rw [ofToken, hkind, htext, readFile_quoted hending hencoding]

theorem reads_date (hkind : token.kind = .date) :
    ∃ body ending, token.text.toList = '"' :: (body ++ '"' :: ending) ∧ '"' ∉ body ∧
      ending.map Char.toLower = ".date".toList ∧
      ofToken workspace token =
        match Instant.ofText? body with
        | some value => .ok (.date value)
        | none => .error (.invalidDate (String.ofList body)) := by
  obtain ⟨text, size, hdate, htext⟩ := h.length?_of_kind Pattern.date? (by
    rw [hkind]
    rfl)
  obtain ⟨body, ending, htake, hbody, hending⟩ := date?_eq_some hdate
  rw [htake] at htext
  refine ⟨body, ending, htext, hbody, hending, ?_⟩
  cases hvalue : Instant.ofText? body <;>
    simp only [ofToken, hkind, htext, dateBody_quoted hending, hvalue]

theorem reads_regExp (hkind : token.kind = .regExp) :
    ∃ pattern flags, token.text.toList = '/' :: (pattern ++ '/' :: flags) ∧ pattern ≠ [] ∧
      (∀ c ∈ flags, c ∈ "igsmuy".toList) ∧
      ofToken workspace token =
        if Regex.isValid pattern flags then
          .ok (.regExp ⟨String.ofList pattern, String.ofList flags⟩)
        else .error (.invalidRegExp (String.ofList pattern)
          (workspace.explain pattern flags)) := by
  obtain ⟨text, size, hregExp, htext⟩ := h.regExp? hkind
  obtain ⟨pattern, flags, htake, hne, _, hflags⟩ := regExp?_eq_some hregExp
  rw [htake] at htext
  refine ⟨pattern, flags, htext, hne, fun c hc => List.contains_iff_mem.1 (hflags c hc), ?_⟩
  rw [ofToken, hkind, htext, readRegExp, RegExp.splitRegExp_eq pattern hflags]
  dsimp only
  split <;> rfl

theorem reads_number (hkind : token.kind = .number) :
    ∃ negative number, NumberText.WellFormed number ∧
      token.text.toList = minusChars negative ++ number.chars ∧
      (¬number.LacksDigits → ∃ value, readNumber? token.text.toList = some value ∧
        ofToken workspace token = .ok (.number value)) ∧
      (number.LacksDigits → ofToken workspace token = .error (.invalidNumber token.text)) := by
  obtain ⟨text, size, hnumber, htext⟩ := h.length?_of_kind Pattern.number? (by
    rw [hkind]
    rfl)
  obtain ⟨negative, number, hwell, htake⟩ := number?_eq_some hnumber
  have hread := hwell.readNumber?_eq_none_iff negative
  rw [← htake, ← htext] at hread
  refine ⟨negative, number, hwell, htext.trans htake, ?_, ?_⟩
  · intro hdigits
    obtain ⟨value, hvalue⟩ := Option.ne_none_iff_exists'.1 (hdigits ∘ hread.1)
    refine ⟨value, hvalue, ?_⟩
    simp only [ofToken, hkind, hvalue]
  · intro hlacks
    simp only [ofToken, hkind, hread.2 hlacks]

theorem reads_bigInt (hkind : token.kind = .bigInt) :
    ∃ integer : IntegerText, integer.WellFormed ∧ token.text.toList = integer.chars ∧
      (integer.HasDigit → ofToken workspace token = .ok (.bigInt integer.value)) ∧
      (¬integer.HasDigit → integer.radix ≠ .decimal ∧
        ofToken workspace token = .error (.invalidBigInt token.text)) := by
  obtain ⟨text, size, hbigInt, htext⟩ := h.length?_of_kind Pattern.bigInt? (by
    rw [hkind]
    rfl)
  obtain ⟨integer, hwell, htake⟩ := bigInt?_eq_some hbigInt
  have hread := hwell.readBigInt?_chars
  rw [← htake, ← htext] at hread
  refine ⟨integer, hwell, htext.trans htake, ?_, ?_⟩
  · intro hdigit
    rw [if_neg (IntegerText.hasDigit_iff.1 hdigit)] at hread
    simp only [ofToken, hkind, hread]
  · intro hnone
    have hnil := not_not.1 (mt IntegerText.hasDigit_iff.2 hnone)
    rw [if_pos hnil] at hread
    refine ⟨fun hdecimal => hwell.withoutUnderscores_ne_nil hdecimal hnil, ?_⟩
    simp only [ofToken, hkind, hread]

omit h in
/-- Only files have an ending that could be unknown. -/
theorem unknownEncoding_of_ofToken {name : String}
    (hvalue : ofToken workspace token = .error (.unknownEncoding name)) : token.kind = .file := by
  rw [ofToken] at hvalue
  split at hvalue
  · cases hvalue
  · split at hvalue <;> cases hvalue
  · split at hvalue <;> cases hvalue
  · cases hvalue
  · cases hvalue
  · cases hvalue
  · split at hvalue <;> cases hvalue
  · assumption
  · rw [readRegExp] at hvalue
    dsimp only at hvalue
    split at hvalue <;> cases hvalue
  · cases hvalue

theorem readsAsScanned : token.ReadsAsScanned workspace where
  string := h.reads_string workspace
  file := h.reads_file workspace
  encoding name hvalue := by
    have hkind := unknownEncoding_of_ofToken workspace hvalue
    obtain ⟨path, ending, encoding, _, _, _, hfound⟩ := h.reads_file workspace hkind
    rw [hfound, Workspace.findFile] at hvalue
    split at hvalue
    · cases hvalue
    · split at hvalue <;> cases hvalue
  date := h.reads_date workspace
  regExp := h.reads_regExp workspace
  number := h.reads_number workspace
  bigInt := h.reads_bigInt workspace

end Token.IsMatched

/-- Every literal of a source is read as what the scanner has cut off: its parts
are those that the pattern of its kind tells apart, and the conditions under
which a number, a date, a pattern or a file is refused are conditions on these
parts. -/
theorem literals_read_as_scanned {source : String} {lexed : Lexed} (hlex : lex source = .ok lexed)
    (workspace : Workspace) :
    ∀ token ∈ lexed.tokens, token.kind.isLiteral = true → token.ReadsAsScanned workspace := by
  intro token htoken hliteral
  have hkind : token.kind ≠ .endOfInput := by
    intro hend
    rw [hend] at hliteral
    cases hliteral
  exact (lex_matched hlex token htoken hkind).readsAsScanned workspace

def sixLiterals : String := "\"s\" \"a\".Utf-8 \"2024\".Date /x/g 0x_ 0b_n"

theorem literals_read_as_scanned_six :
    ∃ lexed, lex sixLiterals = .ok lexed ∧
      lexed.tokens.map Token.kind =
        [.string, .file, .date, .regExp, .number, .bigInt, .endOfInput] ∧
      ∀ token ∈ lexed.tokens, token.kind.isLiteral = true → token.ReadsAsScanned noFiles := by
  have hkinds : (lex sixLiterals).toOption.map (·.tokens.map Token.kind) =
      some [.string, .file, .date, .regExp, .number, .bigInt, .endOfInput] := by decide +kernel
  obtain ⟨lexed, hlexed, hkinds⟩ := Option.map_eq_some_iff.1 hkinds
  have hlex := lex_eq_ok hlexed
  exact ⟨lexed, hlex, hkinds, literals_read_as_scanned hlex noFiles⟩

end ConfigNotation
