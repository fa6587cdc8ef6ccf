import ConfigNotation.Eval.Session
import ConfigNotation.Proofs.Number.Numeral
import ConfigNotation.Proofs.Syntax.PatternTrees

/-!
What a pattern binds. The steps of a target are a path of keys once the pattern is read,
and a key that is the name of a place leads to that place of an array. Binding a value sets
each name to what the steps of its last target reach, and leaves the other names alone.
-/

namespace ConfigNotation

theorem digitValue?_of_isIdentStart {c : Char} (h : isIdentStart c = true) :
    Number.digitValue? 10 c = none := by
  rw [Number.digitValue?, if_neg (not_isDigit_of_isIdentStart h)]
  split
  · simp
  · split <;> simp

/-- No name is read as a place. -/
theorem placeOf?_identifier (name : Identifier) : Value.placeOf? name.text = none := by
  obtain ⟨first, rest, hchars, hfirst, _⟩ := isIdentifier_spec name.valid
  have hdigits : Number.decimalNat? (first :: rest) = none := by
    rw [Number.decimalNat?, List.isEmpty_cons, if_neg Bool.false_ne_true, Number.digitValues?,
      List.mapM_cons, digitValue?_of_isIdentStart hfirst]
    rfl
  have hsign : first ≠ '+' := by
    rintro rfl
    cases hfirst
  rw [Value.placeOf?, hchars]
  split
  · next heq => exact absurd (List.cons.inj heq).1 hsign
  · exact hdigits

/-- The text of a place is read back as that place. -/
theorem placeOf?_toString (index : Nat) : Value.placeOf? (toString index) = some index := by
  have hchars : (toString index).toList = Nat.toDigits 10 index := by
    simp [Nat.toString_eq_repr, Nat.repr]
  have hdigits := areDigits_toDigits index
  rw [Value.placeOf?, hchars]
  split
  · next heq =>
      rw [heq] at hdigits
      cases hdigits '+' List.mem_cons_self
  · rw [Number.decimalNat?_of_areDigits Nat.toDigits_ne_nil hdigits, Nat.ofDigitChars_ten_toDigits]

namespace Value

/-- What is under a key of a record, or at a place of a record or an array. -/
def stepInto? : Value → PathStep → Option Value
  | object record, step => record.get? step.text
  | array items, .place index => items[index]?
  | _, _ => none

def reached? (value : Value) : List PathStep → Option Value
  | [] => some value
  | step :: steps => (value.stepInto? step).bind fun next => next.reached? steps

/-- What steps lead to, or undefined where they lead nowhere. -/
def reached (value : Value) (steps : List PathStep) : Value := (value.reached? steps).getD undefined

theorem get?_text (value : Value) (step : PathStep) :
    value.get? step.text = value.stepInto? step := by
  cases value with
  | array items =>
      cases step with
      | key name =>
          rw [PathStep.text, get?, placeOf?_identifier]
          rfl
      | place index =>
          rw [PathStep.text, get?, placeOf?_toString]
          rfl
  | _ => rfl

theorem follow_map_text (value : Value) (steps : List PathStep) :
    value.follow (steps.map (·.text)) = value.reached steps := by
  have hfollow : value.follow? (steps.map (·.text)) = value.reached? steps := by
    induction steps generalizing value with
    | nil => rfl
    | cons step steps ih =>
        rw [List.map_cons, follow?, get?_text, reached?]
        exact Option.bind_congr fun next _ => ih next
  rw [follow, hfollow, reached]

end Value

/-- The last leaf of a name decides what it is bound to. -/
theorem Binding.get?_bind_pattern (leaves : List Leaf) (bindings : Record Value) (value : Value)
    (name : String) :
    ((Binding.pattern leaves).bind bindings value).get? name =
      ((leaves.reverse.find? (·.name = name)).map fun leaf => value.follow leaf.path).or
        (bindings.get? name) := by
  rw [Binding.bind]
  induction leaves using List.reverseRecOn with
  | nil => rfl
  | append_singleton leaves last ih =>
      rw [List.foldl_append, List.foldl_cons, List.foldl_nil, Record.get?_insert, ih,
        List.reverse_append, List.reverse_singleton, List.singleton_append, List.find?_cons]
      by_cases hname : last.name = name
      · simp [hname]
      · simp [hname, Ne.symm hname]

open Grammar PatternEntry

/-- A pattern of entries with a semicolon behind each is read as its targets, in
the order of the text. Bound to a value, a name has what the steps of its last
target reach in it, and a name of no target has what it had. -/
theorem destructuring_exact {entries : List PatternEntry} {written rest : List Token}
    {cursor : Cursor} (hwritten : Alike (bracketed (endedTokens entries)) written)
    (hcursor : cursor.tokens = written ++ rest) :
    cursor.ReadsLeaves ((targetsFrom 0 entries).map Target.leaf) rest ∧
      ∀ (bindings : Record Value) (value : Value) (name : String),
        ((Binding.pattern ((targetsFrom 0 entries).map Target.leaf)).bind bindings value).get? name =
          match (targetsFrom 0 entries).reverse.find? (·.name.text = name) with
          | some target => some (value.reached target.steps)
          | none => bindings.get? name := by
  have hgroup : IsGroup .required (bracketed (endedTokens entries))
      ((targetsFrom 0 entries).map Target.leaf) :=
    .intro rfl (areEntries_endedTokens 0 entries) rfl
  refine ⟨(readsLeaves_iff hcursor).2 (hgroup.alike hwritten), ?_⟩
  intro bindings value name
  rw [Binding.get?_bind_pattern, ← List.map_reverse, List.find?_map]
  have hnames : ((fun leaf : Leaf => decide (leaf.name = name)) ∘ Target.leaf) =
      fun target => decide (target.name.text = name) := rfl
  rw [hnames]
  cases (targetsFrom 0 entries).reverse.find? (·.name.text = name) with
  | none => rfl
  | some target => exact congrArg some (value.follow_map_text target.steps)

/-- The entries of `[a; skip; ; [b;]; k => c; m => [a;];]`. -/
def entriesOfEveryForm : List PatternEntry :=
  [.name ⟨"a", by decide⟩, .skip, .empty, .group [.name ⟨"b", by decide⟩],
    .keyedName ⟨"k", by decide⟩ ⟨"c", by decide⟩,
    .keyedGroup ⟨"m", by decide⟩ [.name ⟨"a", by decide⟩]]

theorem destructuring_exact_every_form :
    let leaves : List Leaf := [⟨["0"], "a"⟩, ⟨["3", "0"], "b"⟩, ⟨["k"], "c"⟩, ⟨["m", "0"], "a"⟩]
    let value := .object ⟨[("m", .array [.boolean true]), ("k", .null)]⟩
    let bound := (Binding.pattern leaves).bind ⟨[("z", .string "kept")]⟩ value
    (Cursor.mk (bracketed (endedTokens entriesOfEveryForm)) .empty).ReadsLeaves leaves [] ∧
      bound.get? "a" = some (.boolean true) ∧ bound.get? "b" = some .undefined ∧
      bound.get? "c" = some .null ∧ bound.get? "z" = some (.string "kept") := by
  intro leaves value bound
  have hwritten := Alike.refl (bracketed (endedTokens entriesOfEveryForm))
  obtain ⟨hread, hbound⟩ := @destructuring_exact entriesOfEveryForm _ []
    ⟨bracketed (endedTokens entriesOfEveryForm), .empty⟩ hwritten (List.append_nil _).symm
  have hget := hbound ⟨[("z", .string "kept")]⟩ value
  exact ⟨hread, hget "a", hget "b", hget "c", hget "z"⟩

end ConfigNotation
