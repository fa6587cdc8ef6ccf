import ConfigNotation.Eval.Scope
import ConfigNotation.Proofs.Text.Escapes
import ConfigNotation.Proofs.Text.Placeholders

/-!
Filling a template is one pass over its text. The text is split in one way, whatever is
looked up, and the output puts what each piece shows behind what the pieces before it show.
A pass that looks up each path where it meets it makes the same lookups in the same order,
also if a lookup changes what the later ones find.
-/

namespace ConfigNotation

/-- The text of a value that fills a placeholder. Null and undefined fill
none. -/
def Value.fillText? (value : Value) : Option String :=
  if value.isNullish then none else some value.text

namespace Placeholder

/-- What stands for a placeholder that nothing fills. -/
def fallback (placeholder : Placeholder) : List Char :=
  match placeholder.default with
  | some default => defaultText default
  | none => placeholder.written

def shows (placeholder : Placeholder) : Option Value → List Char
  | some value => if value.isNullish then placeholder.fallback else value.text.toList
  | none => placeholder.fallback

theorem fill_none (placeholder : Placeholder) : placeholder.fill none = placeholder.fallback := by
  obtain ⟨written, path, default⟩ := placeholder
  cases default <;> rfl

theorem fill_fillText? (placeholder : Placeholder) (found : Option Value) :
    placeholder.fill (found.bind Value.fillText?) = placeholder.shows found := by
  cases found with
  | none => exact placeholder.fill_none
  | some value =>
      rw [Option.bind_some, Value.fillText?, shows]
      split
      · exact placeholder.fill_none
      · rfl

end Placeholder

def TemplatePiece.shows (lookup : String → Option Value) : TemplatePiece → List Char
  | escape _ meaning => [meaning]
  | placeholder value => value.shows (lookup value.path)
  | plain c => [c]

/-- What a piece shows where looking up has an effect. Only a placeholder looks
up, and only its own path. -/
def TemplatePiece.showsBy {σ : Type} (lookup : String → StateM σ (Option Value)) :
    TemplatePiece → StateM σ (List Char)
  | escape _ meaning => return [meaning]
  | placeholder value => return value.shows (← lookup value.path)
  | plain c => return [c]

namespace Template

/-- A text is split into pieces from left to right. A backslash that escapes
nothing, and a bracket with no placeholder behind it, are plain. -/
inductive Splits : List Char → List TemplatePiece → Prop where
  | nil : Splits [] []
  | escape {c meaning : Char} {rest : List Char} {pieces : List TemplatePiece}
      (hmeaning : meaning? c = some meaning) (hrest : Splits rest pieces) :
      Splits ('\\' :: c :: rest) (.escape c meaning :: pieces)
  | placeholder {value : Placeholder} {rest : List Char} {pieces : List TemplatePiece}
      (hstands : value.Stands rest) (hrest : Splits rest pieces) :
      Splits (value.written ++ rest) (.placeholder value :: pieces)
  | backslash {rest : List Char} {pieces : List TemplatePiece}
      (hescape : ∀ c ∈ rest.head?, meaning? c = none) (hrest : Splits rest pieces) :
      Splits ('\\' :: rest) (.plain '\\' :: pieces)
  | bracket {rest : List Char} {pieces : List TemplatePiece}
      (hstands : ∀ (value : Placeholder) (after : List Char), value.Stands after →
        '[' :: rest ≠ value.written ++ after) (hrest : Splits rest pieces) :
      Splits ('[' :: rest) (.plain '[' :: pieces)
  | ordinary {c : Char} {rest : List Char} {pieces : List TemplatePiece} (hbackslash : c ≠ '\\')
      (hbracket : c ≠ '[') (hrest : Splits rest pieces) : Splits (c :: rest) (.plain c :: pieces)

section

variable {c : Char} {rest : List Char}

theorem piecesOf_escape {meaning : Char} (h : meaning? c = some meaning) :
    piecesOf ('\\' :: c :: rest) = .escape c meaning :: piecesOf rest := by
  rw [piecesOf.eq_def]
  simp only [if_pos, h]

theorem piecesOf_backslash (h : ∀ c ∈ rest.head?, meaning? c = none) :
    piecesOf ('\\' :: rest) = .plain '\\' :: piecesOf rest := by
  rw [piecesOf.eq_def]
  cases rest with
  | nil => simp [piecesOf]
  | cons d after => simp only [if_pos, h d rfl]

theorem piecesOf_placeholder {value : Placeholder} (h : value.Stands rest) :
    piecesOf (value.written ++ rest) = .placeholder value :: piecesOf rest := by
  obtain ⟨text, htext, hscan, hdrop⟩ := h.found
  rw [htext, piecesOf.eq_def]
  simp only [hscan, hdrop]
  rfl

theorem piecesOf_bracket (h : Placeholder.scan? rest = none) :
    piecesOf ('[' :: rest) = .plain '[' :: piecesOf rest := by
  rw [piecesOf.eq_def]
  simp only [h]
  rfl

theorem piecesOf_ordinary (hbackslash : c ≠ '\\') (hbracket : c ≠ '[') :
    piecesOf (c :: rest) = .plain c :: piecesOf rest := by
  rw [piecesOf.eq_def]
  simp only [if_neg hbackslash, if_neg hbracket]

end

/-- There is one way to split a text, and it is the one taken. -/
theorem splits_iff {text : List Char} {pieces : List TemplatePiece} :
    Splits text pieces ↔ pieces = piecesOf text := by
  constructor
  · intro h
    induction h with
    | nil => simp [piecesOf]
    | escape hmeaning _ ih => rw [piecesOf_escape hmeaning, ih]
    | placeholder hstands _ ih => rw [piecesOf_placeholder hstands, ih]
    | backslash hescape _ ih => rw [piecesOf_backslash hescape, ih]
    | bracket hstands _ ih =>
        rw [piecesOf_bracket (Placeholder.scan?_eq_none_iff.2 hstands), ih]
    | ordinary hbackslash hbracket _ ih => rw [piecesOf_ordinary hbackslash hbracket, ih]
  · rintro rfl
    induction text using piecesOf.induct with
    | case1 => simpa [piecesOf] using Splits.nil
    | case2 => simpa [piecesOf] using Splits.backslash (by simp) .nil
    | case3 c rest meaning hmeaning ih =>
        rw [piecesOf_escape hmeaning]
        exact .escape hmeaning ih
    | case4 c rest hmeaning ih =>
        have hescape : ∀ d ∈ (c :: rest).head?, meaning? d = none := by
          rintro _ ⟨⟩
          exact hmeaning
        rw [piecesOf_backslash hescape]
        exact .backslash hescape ih
    | case5 rest value hscan _ ih =>
        obtain ⟨after, hstands, htext⟩ := Placeholder.scan?_eq_some_iff.1 hscan
        obtain ⟨text, hsame, -, hdrop⟩ := hstands.found
        obtain rfl := (List.cons.inj (htext.trans hsame)).2
        rw [hdrop] at ih
        rw [htext, piecesOf_placeholder hstands]
        exact .placeholder hstands ih
    | case6 rest hscan _ ih =>
        rw [piecesOf_bracket hscan]
        exact .bracket (Placeholder.scan?_eq_none_iff.1 hscan) ih
    | case7 c rest hbackslash hbracket ih =>
        rw [piecesOf_ordinary hbackslash hbracket]
        exact .ordinary hbackslash hbracket ih

/-- The pieces as they were written are the text. -/
theorem Splits.written {text : List Char} {pieces : List TemplatePiece} (h : Splits text pieces) :
    pieces.flatMap (·.written) = text := by
  induction h with
  | nil => rfl
  | placeholder _ _ ih => rw [List.flatMap_cons, ih, TemplatePiece.written]
  | escape _ _ ih | backslash _ _ ih | bracket _ _ ih | ordinary _ _ _ ih =>
      rw [List.flatMap_cons, ih]
      rfl

/-- One pass over a text that looks up each path where it meets it. -/
def interpolate {σ : Type} (lookup : String → StateM σ (Option Value)) :
    List Char → StateM σ (List Char)
  | [] => return []
  | c :: rest =>
      if c = '\\' then
        match rest.head?.bind meaning? with
        | some meaning => return meaning :: (← interpolate lookup rest.tail)
        | none => return c :: (← interpolate lookup rest)
      else if c = '[' then
        match Placeholder.scan? rest with
        | some value => do
            let found ← lookup value.path
            return value.shows found ++
              (← interpolate lookup (rest.drop (value.written.length - 1)))
        | none => return c :: (← interpolate lookup rest)
      else return c :: (← interpolate lookup rest)
termination_by text => text.length
decreasing_by all_goals (simp only [List.length_tail, List.length_drop, List.length_cons]; omega)

/-- The pass does what looking up for the pieces one after the other does. -/
theorem Splits.interpolate_eq {text : List Char} {pieces : List TemplatePiece}
    (h : Splits text pieces) {σ : Type} (lookup : String → StateM σ (Option Value)) :
    interpolate lookup text = do
      return (← pieces.mapM (TemplatePiece.showsBy lookup)).flatten := by
  induction h with
  | nil => simp [interpolate]
  | escape hmeaning _ ih =>
      rw [interpolate.eq_def]
      simp [hmeaning, ih, List.mapM_cons, TemplatePiece.showsBy]
  | placeholder hstands _ ih =>
      obtain ⟨text, htext, hscan, hdrop⟩ := hstands.found
      rw [htext, interpolate.eq_def]
      simp [hscan, hdrop, ih, List.mapM_cons, TemplatePiece.showsBy]
  | backslash hescape _ ih =>
      rw [interpolate.eq_def]
      simp [Option.bind_eq_none_iff.2 hescape, ih, List.mapM_cons, TemplatePiece.showsBy]
  | bracket hstands _ ih =>
      rw [interpolate.eq_def]
      simp [Placeholder.scan?_eq_none_iff.2 hstands, ih, List.mapM_cons, TemplatePiece.showsBy]
  | ordinary hbackslash hbracket _ ih =>
      rw [interpolate.eq_def]
      simp [hbackslash, hbracket, ih, List.mapM_cons, TemplatePiece.showsBy]

/-- A lookup that writes down the paths it is asked for. -/
def recorded (lookup : String → Option Value) (path : String) :
    StateM (List String) (Option Value) := do
  modify (· ++ [path])
  return lookup path

theorem run_mapM_recorded (lookup : String → Option Value) (pieces : List TemplatePiece)
    (asked : List String) :
    (pieces.mapM (TemplatePiece.showsBy (recorded lookup))).run asked =
      pure (pieces.map (TemplatePiece.shows lookup), asked ++ pieces.filterMap pathOf?) := by
  induction pieces generalizing asked with
  | nil => simp
  | cons piece rest ih =>
      rw [List.mapM_cons, StateT.run_bind]
      cases piece with
      | placeholder value =>
          rw [List.filterMap_cons_some (f := pathOf?) rfl, List.append_cons]
          simp [TemplatePiece.showsBy, TemplatePiece.shows, recorded, ih]
      | escape | plain =>
          rw [List.filterMap_cons_none (f := pathOf?) rfl]
          simp [TemplatePiece.showsBy, TemplatePiece.shows, ih]

theorem fill_eq_shows (template : Template) (lookup : String → Option Value) :
    template.fill (fun path => (lookup path).bind Value.fillText?) =
      String.ofList (template.pieces.flatMap (TemplatePiece.shows lookup)) := by
  rw [fill]
  congr 2
  funext piece
  cases piece with
  | placeholder value => exact value.fill_fillText? (lookup value.path)
  | escape | plain => rfl

/-- A template is filled in one pass from left to right. Its text is split in
one way; each piece shows the character it stands for, itself, or what was found
for its path, and else its default or what was written. The pass looks up the
paths of the placeholders, each once and in their order. -/
theorem interpolation_single_pass (raw : String) :
    (∀ pieces, Splits raw.toList pieces ↔ pieces = (ofText raw).pieces) ∧
    (ofText raw).pieces.flatMap (·.written) = raw.toList ∧
    (∀ lookup : String → Option Value,
      (ofText raw).fill (fun path => (lookup path).bind Value.fillText?) =
        String.ofList ((ofText raw).pieces.flatMap (TemplatePiece.shows lookup)) ∧
      (interpolate (recorded lookup) raw.toList).run [] =
        ((ofText raw).pieces.flatMap (TemplatePiece.shows lookup), (ofText raw).paths)) ∧
    ∀ (σ : Type) (lookup : String → StateM σ (Option Value)),
      interpolate lookup raw.toList = do
        return (← (ofText raw).pieces.mapM (TemplatePiece.showsBy lookup)).flatten := by
  have hsplits : Splits raw.toList (ofText raw).pieces := splits_iff.2 rfl
  refine ⟨fun pieces => splits_iff, hsplits.written, ?_, fun σ => hsplits.interpolate_eq⟩
  intro lookup
  refine ⟨fill_eq_shows _ lookup, ?_⟩
  rw [hsplits.interpolate_eq, StateT.run_bind, run_mapM_recorded, pure_bind, StateT.run_pure,
    paths_eq, List.flatMap_def, List.nil_append]
  rfl

end Template

end ConfigNotation
