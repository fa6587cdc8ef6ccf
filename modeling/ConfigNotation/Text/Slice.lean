/-!
Texts measured in the bytes of their UTF-8 form. Offsets count bytes, and an
offset that falls inside a character cuts nothing off: the slice is then absent.
-/

namespace ConfigNotation.Text

def byteSize : List Char → Nat
  | [] => 0
  | c :: rest => c.utf8Size + byteSize rest

/-- The text from a byte offset on, if that is a boundary between characters. -/
def dropBytes? : Nat → List Char → Option (List Char)
  | 0, text => some text
  | _ + 1, [] => none
  | n + 1, c :: rest =>
      if c.utf8Size ≤ n + 1 then dropBytes? (n + 1 - c.utf8Size) rest else none

/-- The text before a byte offset, if that is a boundary between characters. -/
def takeBytes? : Nat → List Char → Option (List Char)
  | 0, _ => some []
  | _ + 1, [] => none
  | n + 1, c :: rest =>
      if c.utf8Size ≤ n + 1 then (takeBytes? (n + 1 - c.utf8Size) rest).map (c :: ·) else none

/-- The text between two byte offsets, if both are boundaries in this order. -/
def slice? (start stop : Nat) (text : List Char) : Option (List Char) :=
  if start ≤ stop then (dropBytes? start text).bind (takeBytes? (stop - start)) else none

@[simp] theorem byteSize_nil : byteSize [] = 0 := rfl

@[simp] theorem byteSize_cons (c : Char) (rest : List Char) :
    byteSize (c :: rest) = c.utf8Size + byteSize rest := rfl

@[simp] theorem byteSize_append (first second : List Char) :
    byteSize (first ++ second) = byteSize first + byteSize second := by
  induction first with
  | nil => simp
  | cons c rest ih => simp [ih, Nat.add_assoc]

theorem length_le_byteSize (text : List Char) : text.length ≤ byteSize text := by
  induction text with
  | nil => exact Nat.le_refl _
  | cons c rest ih =>
      have hsome := c.utf8Size_pos
      rw [List.length_cons, byteSize_cons]
      omega

/-- Cutting at the size of a first part leaves the second part. -/
@[simp] theorem dropBytes?_append (first second : List Char) :
    dropBytes? (byteSize first) (first ++ second) = some second := by
  induction first with
  | nil => simp [dropBytes?]
  | cons c rest ih =>
      obtain ⟨k, hk⟩ := Nat.exists_eq_add_one.2 (c.utf8Size_pos)
      have hsize : byteSize (c :: rest) = (k + byteSize rest) + 1 := by simp [hk]; omega
      rw [hsize, List.cons_append, dropBytes?, if_pos (by omega)]
      rw [show k + byteSize rest + 1 - c.utf8Size = byteSize rest by omega]
      exact ih

/-- Cutting at the size of a first part gives that part. -/
@[simp] theorem takeBytes?_append (first second : List Char) :
    takeBytes? (byteSize first) (first ++ second) = some first := by
  induction first with
  | nil => simp [takeBytes?]
  | cons c rest ih =>
      obtain ⟨k, hk⟩ := Nat.exists_eq_add_one.2 (c.utf8Size_pos)
      have hsize : byteSize (c :: rest) = (k + byteSize rest) + 1 := by simp [hk]; omega
      rw [hsize, List.cons_append, takeBytes?, if_pos (by omega)]
      rw [show k + byteSize rest + 1 - c.utf8Size = byteSize rest by omega, ih]
      rfl

end ConfigNotation.Text
