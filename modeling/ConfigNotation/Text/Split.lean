/-!
Cutting a text at a separator, and joining pieces with one; lists of words, as tables hold
them.
-/

namespace ConfigNotation.Text

/-- The pieces between the separators of a text; there is always one at least. -/
def splitOn (separator : Char) : List Char → List (List Char)
  | [] => [[]]
  | c :: rest =>
      if c = separator then [] :: splitOn separator rest
      else
        match splitOn separator rest with
        | piece :: pieces => (c :: piece) :: pieces
        | [] => [[c]]

def joinWith (separator : List Char) : List (List Char) → List Char
  | [] => []
  | [piece] => piece
  | piece :: pieces => piece ++ separator ++ joinWith separator pieces

def words (text : String) : List String :=
  ((splitOn ' ' (text.toList.map fun c => if c = '\n' then ' ' else c)).filter (· ≠ [])).map
    String.ofList

theorem splitOn_ne_nil (separator : Char) (text : List Char) : splitOn separator text ≠ [] := by
  cases text with
  | nil => simp [splitOn]
  | cons c rest =>
      simp only [splitOn]
      split
      · simp
      · split <;> simp

/-- Joining the pieces of a text with the separator gives the text back. -/
theorem joinWith_splitOn (separator : Char) (text : List Char) :
    joinWith [separator] (splitOn separator text) = text := by
  induction text with
  | nil => rfl
  | cons c rest ih =>
      simp only [splitOn]
      split
      · rename_i h
        cases hsplit : splitOn separator rest with
        | nil => exact absurd hsplit (splitOn_ne_nil separator rest)
        | cons piece pieces => rw [hsplit] at ih; simp [joinWith, ih, h]
      · cases hsplit : splitOn separator rest with
        | nil => exact absurd hsplit (splitOn_ne_nil separator rest)
        | cons piece pieces =>
            rw [hsplit] at ih
            cases pieces <;> simp_all [joinWith]

end ConfigNotation.Text
