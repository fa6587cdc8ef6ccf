import ConfigNotation.Text.Split

/-!
Cutting a text undoes joining: pieces in which no separator stands are those of the text that
they are joined to.
-/

namespace ConfigNotation.Text

theorem splitOn_append {separator : Char} {piece : List Char} (h : separator ∉ piece)
    (rest : List Char) :
    splitOn separator (piece ++ separator :: rest) = piece :: splitOn separator rest := by
  induction piece with
  | nil => rw [List.nil_append, splitOn, if_pos rfl]
  | cons c piece ih =>
      rw [List.mem_cons, not_or] at h
      rw [List.cons_append, splitOn, if_neg (Ne.symm h.1), ih h.2]

theorem splitOn_of_not_mem {separator : Char} {piece : List Char} (h : separator ∉ piece) :
    splitOn separator piece = [piece] := by
  induction piece with
  | nil => rfl
  | cons c piece ih =>
      rw [List.mem_cons, not_or] at h
      rw [splitOn, if_neg (Ne.symm h.1), ih h.2]

theorem length_splitOn (separator : Char) (text : List Char) :
    (splitOn separator text).length = text.count separator + 1 := by
  induction text with
  | nil => rfl
  | cons c rest ih =>
      rw [splitOn, List.count_cons]
      split
      · next hseparator => simp [hseparator, ih]
      · next hother =>
        cases hsplit : splitOn separator rest with
        | nil => exact absurd hsplit (splitOn_ne_nil separator rest)
        | cons piece pieces => simpa [hother, hsplit] using ih

/-- Pieces without separators are those of the text that they are joined to. -/
theorem splitOn_joinWith {separator : Char} {pieces : List (List Char)} (hsome : pieces ≠ [])
    (h : ∀ piece ∈ pieces, separator ∉ piece) :
    splitOn separator (joinWith [separator] pieces) = pieces := by
  induction pieces with
  | nil => exact absurd rfl hsome
  | cons piece pieces ih =>
      rw [List.forall_mem_cons] at h
      cases pieces with
      | nil => exact splitOn_of_not_mem h.1
      | cons next pieces =>
          rw [joinWith, List.append_assoc, List.singleton_append, splitOn_append h.1,
            ih (List.cons_ne_nil _ _) h.2]
          exact List.cons_ne_nil _ _

theorem not_mem_of_mem_splitOn {separator : Char} {text piece : List Char}
    (h : piece ∈ splitOn separator text) :
    separator ∉ piece := by
  induction text generalizing piece with
  | nil =>
      rw [splitOn, List.mem_singleton] at h
      simp [h]
  | cons c rest ih =>
      rw [splitOn] at h
      split at h
      · rcases List.mem_cons.1 h with rfl | h
        · simp
        · exact ih h
      · next hother =>
        split at h
        · next first pieces hsplit =>
          rw [hsplit] at ih
          rcases List.mem_cons.1 h with rfl | h
          · rw [List.mem_cons, not_or]
            exact ⟨Ne.symm hother, ih List.mem_cons_self⟩
          · exact ih (List.mem_cons_of_mem first h)
        · rw [List.mem_singleton.1 h]
          simpa using Ne.symm hother

end ConfigNotation.Text
