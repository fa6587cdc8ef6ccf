import ConfigNotation.Proofs.Text.Placeholders
import ConfigNotation.Proofs.Text.Split
import ConfigNotation.Proofs.Token.Longest
import ConfigNotation.Proofs.Token.Origins

/-!
The texts of names and dotted paths that are cut from a source. A name is an identifier, and a
path is a name with at least one segment behind it. Segments are those of placeholders, so that
a path is one in a string as well.
-/

namespace ConfigNotation

open Pattern Placeholder

/-- What continues a path is the rest of its last segment so far, and segments
behind it. -/
theorem Pattern.take_pathTail (index : Bool) (text : List Char) :
    ∃ word rest, text.take (pathTail index text) = word ++ rest ∧ AreSegments rest ∧
      ∀ c ∈ word, (if index then c.isDigit else isWordChar c) = true := by
  fun_induction pathTail index text with
  | case1 => exact ⟨[], [], rfl, .nil, List.forall_mem_nil _⟩
  | case2 index c rest hstart ih =>
      obtain ⟨word, more, htake, hmore, hword⟩ := ih
      have hname : isIdentifier (c :: word) = true := isIdentifier_cons hstart hword
      refine ⟨[], '.' :: ((c :: word) ++ more), ?_, .cons (.inl hname) hmore,
        List.forall_mem_nil _⟩
      rw [List.take_succ_cons, List.take_succ_cons, htake]
      rfl
  | case3 index c rest hstart hdigit ih =>
      obtain ⟨word, more, htake, hmore, hword⟩ := ih
      have hdigits : AreDigits (c :: word) := List.forall_mem_cons.2 ⟨hdigit, hword⟩
      refine ⟨[], '.' :: ((c :: word) ++ more), ?_, .cons (.inr ⟨?_, hdigits⟩) hmore,
        List.forall_mem_nil _⟩
      · rw [List.take_succ_cons, List.take_succ_cons, htake]
        rfl
      · exact List.cons_ne_nil c word
  | case4 => exact ⟨[], [], rfl, .nil, List.forall_mem_nil _⟩
  | case5 index c rest hnot hchar ih =>
      obtain ⟨word, more, htake, hmore, hword⟩ := ih
      refine ⟨c :: word, more, ?_, hmore, List.forall_mem_cons.2 ⟨hchar, hword⟩⟩
      rw [List.take_succ_cons, htake]
      rfl
  | case6 => exact ⟨[], [], rfl, .nil, List.forall_mem_nil _⟩

/-- A path is a name with segments behind it, of which there is at least one. -/
theorem Pattern.take_path? {text : List Char} {size : Nat} (h : path? text = some size) :
    ∃ name rest, text.take size = name ++ rest ∧ isIdentifier name = true ∧ AreSegments rest ∧
      rest ≠ [] := by
  cases text with
  | nil => cases h
  | cons c text =>
      rw [path?, Option.ite_none_right_eq_some, Bool.and_eq_true] at h
      obtain ⟨⟨hstart, hlonger⟩, heq⟩ := h
      cases heq
      obtain ⟨word, rest, htake, hrest, hword⟩ := take_pathTail false text
      have hword : ∀ c ∈ word, isWordChar c = true := hword
      refine ⟨c :: word, rest, ?_, ?_, hrest, ?_⟩
      · rw [Nat.add_comm, List.take_succ_cons, htake]
        rfl
      · exact isIdentifier_cons hstart hword
      · -- without a segment the path would be no longer than the name that it starts with
        rintro rfl
        rw [List.append_nil] at htake
        have hlength := congrArg List.length htake
        rw [List.length_take, Nat.min_eq_left (pathTail_le false text)] at hlength
        obtain ⟨after, rfl⟩ := htake ▸ List.take_prefix (pathTail false text) text
        rw [ident?, if_pos hstart, List.takeWhile_append_of_pos hword] at hlonger
        simp only [Option.any_some, decide_eq_true_eq, List.length_append] at hlonger
        omega

theorem Placeholder.IsSegment.point_not_mem {segment : List Char} (h : IsSegment segment) :
    '.' ∉ segment := by
  have hword : ¬isWordChar '.' = true := by decide
  rcases h with hname | ⟨_, hdigits⟩
  · exact fun hpoint => hword (isWordChar_of_mem_identifier hname hpoint)
  · exact fun hpoint => hword (isWordChar_of_isDigit (hdigits '.' hpoint))

theorem Placeholder.IsSegment.ne_nil {segment : List Char} (h : IsSegment segment) :
    segment ≠ [] := by
  rcases h with hname | ⟨hne, _⟩
  · rintro rfl
    cases hname
  · exact hne

/-- Cutting at the points gives the segments back. -/
theorem Placeholder.AreSegments.splitOn {first rest : List Char} (hrest : AreSegments rest)
    (hfirst : IsSegment first) :
    ∃ pieces, Text.splitOn '.' (first ++ rest) = first :: pieces ∧
      (∀ piece ∈ pieces, IsSegment piece) ∧ (rest ≠ [] → pieces ≠ []) := by
  induction hrest generalizing first with
  | nil =>
      refine ⟨[], ?_, nofun, fun hne => absurd rfl hne⟩
      rw [List.append_nil, Text.splitOn_of_not_mem hfirst.point_not_mem]
  | cons hsegment _ ih =>
      obtain ⟨pieces, hpieces, hall, _⟩ := ih hsegment
      refine ⟨_ :: pieces, ?_, List.forall_mem_cons.2 ⟨hsegment, hall⟩, nofun⟩
      rw [Text.splitOn_append hfirst.point_not_mem, hpieces]

namespace Placeholder.IsPath

variable {path : List Char} (h : IsPath path)

include h

theorem isPlain : ∀ c ∈ path, IsPlain c := by
  intro c hc
  rcases h.mem_cases hc with hword | rfl
  · exact isPlain_of_isWordChar hword
  · decide

theorem return_not_mem : '\r' ∉ path := by
  intro hmem
  rcases h.mem_cases hmem with hword | heq
  · cases hword
  · cases heq

end Placeholder.IsPath

namespace Token.IsMatched

variable {token : Token} (h : token.IsMatched)

include h

theorem take_path? (hkind : token.kind = .path) :
    ∃ name rest, token.text.toList = name ++ rest ∧ isIdentifier name = true ∧
      AreSegments rest ∧ rest ≠ [] := by
  obtain ⟨text, size, hpath, htext⟩ := h.length?_of_kind Pattern.path? (by
    rw [hkind]
    rfl)
  rw [htext]
  exact Pattern.take_path? hpath

/-- What the lexer takes for a reference is one between the brackets of a
placeholder. -/
theorem isPath_text (hkind : token.kind = .path ∨ token.kind = .ident) :
    IsPath token.text.toList := by
  rcases hkind with hpath | hname
  · obtain ⟨name, rest, htext, hname, hrest, _⟩ := h.take_path? hpath
    rw [htext]
    exact .intro hname hrest
  · have hpath : IsPath (token.text.toList ++ []) := .intro (h.isIdentifier_text hname) .nil
    rwa [List.append_nil] at hpath

/-- A dotted path has two segments or more, and none of them is empty. -/
theorem pathSegments_spec (hkind : token.kind = .path) :
    2 ≤ (Parser.pathSegments token).length ∧ ∀ segment ∈ Parser.pathSegments token, segment ≠ "" := by
  obtain ⟨name, rest, htext, hname, hrest, hne⟩ := h.take_path? hkind
  obtain ⟨pieces, hpieces, hall, hmore⟩ := hrest.splitOn (.inl hname)
  rw [Parser.pathSegments, htext, hpieces]
  constructor
  · have hpositive := List.length_pos_iff.2 (hmore hne)
    rw [List.length_map, List.length_cons]
    omega
  · rintro _ hsegment rfl
    obtain ⟨piece, hpiece, hempty⟩ := List.mem_map.1 hsegment
    have hpieceNe : piece ≠ [] := by
      rcases List.mem_cons.1 hpiece with rfl | hpiece
      · exact IsSegment.ne_nil (.inl hname)
      · exact (hall piece hpiece).ne_nil
    exact hpieceNe (String.ofList_eq_empty_iff.1 hempty)

end Token.IsMatched

end ConfigNotation
