import ConfigNotation.Proofs.Source.Replacing
import ConfigNotation.Proofs.Value.Keys
import ConfigNotation.Source.Emission

/-!
When a value cannot be written. The only faults are a value that is no container and a key that
is no identifier, of which the first one on the way through the value is named. Nothing has been
handed to the receiver then.
-/

namespace ConfigNotation

/-- A value with its leaves replaced, if there is a replacer. -/
def Value.replaced (value : Value) : Option (Value → Value) → Value
  | some replace => value.mapLeaves replace
  | none => value

namespace Source

/-- The first key that cannot be written. -/
def invalidKey? (keys : List String) : Option String :=
  keys.find? fun key => !isIdentifier key.toList

/-- An outcome is the fault of the first key that cannot be written, or no fault
at all. -/
def Names {α : Type} (outcome : Except SourceFault α) (keys : List String) : Prop :=
  match invalidKey? keys with
  | some key => outcome = .error (.invalidKey key)
  | none => ∃ value, outcome = .ok value

theorem invalidKey?_append (first second : List String) :
    invalidKey? (first ++ second) = (invalidKey? first).or (invalidKey? second) :=
  List.find?_append

namespace Names

variable {α β : Type} {outcome : Except SourceFault α} {keys later : List String}

theorem ok (value : α) : Names (.ok value) [] := ⟨value, rfl⟩

/-- The fault of two steps is the first one of all keys, those of the first step
in front. -/
theorem bind (h : Names outcome keys) {next : α → Except SourceFault β}
    (hnext : ∀ value, Names (next value) later) : Names (outcome >>= next) (keys ++ later) := by
  unfold Names at h hnext ⊢
  rw [invalidKey?_append]
  cases hfirst : invalidKey? keys with
  | some key =>
      simp only [hfirst] at h
      rw [h]
      rfl
  | none =>
      simp only [hfirst] at h
      obtain ⟨value, rfl⟩ := h
      exact hnext value

theorem map (h : Names outcome keys) (change : α → β) :
    Names (outcome >>= fun value => pure (change value)) keys := by
  have hbind := h.bind (fun value => ok (change value))
  rwa [List.append_nil] at hbind

/-- A key that can be written is passed over. -/
theorem skip {key : String} (h : Names outcome keys) (hkey : isIdentifier key.toList = true) :
    Names outcome (key :: keys) := by
  rwa [Names, invalidKey?, List.find?_cons_of_neg (by simp [hkey])]

theorem invalid {key : String} (hkey : isIdentifier key.toList = false) :
    Names (.error (.invalidKey key) : Except SourceFault α) (key :: keys) := by
  rw [Names, invalidKey?, List.find?_cons_of_pos (by simp [hkey])]

end Names

mutual

/-- Writing a value fails at its first key that is no identifier, in the order
in which keys are written. -/
theorem writeValue_names (indent level : Nat) (value : Value) :
    Names (writeValue plainLeaf indent level value) value.allKeys := by
  match value with
  | .array [] => exact .ok _
  | .array (item :: rest) =>
      rw [writeValue]
      · exact (writeItems_names indent (level + 1) (item :: rest)).map _
      · simp
  | .object ⟨entries⟩ =>
      rw [writeValue]
      exact (writeEntries_names indent (level + 1) entries).map _
  | .null | .undefined | .boolean _ | .number _ | .bigInt _ | .string _ | .date _ | .regExp _
  | .buffer _ => exact .ok _

theorem writeItems_names (indent level : Nat) (items : List Value) :
    Names (writeItems plainLeaf indent level items) (Value.itemsKeys items) := by
  match items with
  | [] => exact .ok _
  | item :: rest =>
      rw [writeItems, Value.itemsKeys]
      exact (writeValue_names indent level item).bind fun _ =>
        (writeItems_names indent level rest).map _

theorem writeEntries_names (indent level : Nat) (entries : List (String × Value)) :
    Names (writeEntries plainLeaf indent level entries) (Value.entriesKeys entries) := by
  match entries with
  | [] => exact .ok _
  | (key, item) :: rest =>
      have hentry := (writeValue_names indent level item).bind fun value =>
        (writeEntries_names indent level rest).map (entry indent level key value ++ ·)
      rw [writeEntries, Value.entriesKeys]
      cases hkey : isIdentifier key.toList with
      | true => exact hentry.skip hkey
      | false => exact .invalid hkey

end

theorem exportPart_plain_names (indent : Nat) {value : Value} (h : value.isContainer = true) :
    Names (exportPart plainLeaf indent value) value.allKeys := by
  have hwrite := (writeValue_names indent 0 value).map fun part =>
    .plain "export " ++ part ++ .plain ";"
  cases value with
  | array items | object record => exact hwrite
  | _ => cases h

/-- The faults of a container are those of its keys and of the keys in the
replacements. -/
theorem exportPart_names (replace? : Option (Value → Value)) (indent : Nat) {value : Value}
    (h : value.isContainer = true) :
    Names (exportPart (leafWriter replace? indent) indent value)
      (value.replaced replace?).allKeys := by
  cases replace? with
  | none => exact exportPart_plain_names indent h
  | some replace =>
      rw [exportPart_replaced replace indent h]
      exact exportPart_plain_names indent (Value.isContainer_mapLeaves replace h)

/-- A value that is no container is refused before anything is written. -/
theorem exportPart_leaf (leaf : LeafWriter) (indent : Nat) {value : Value}
    (h : value.isContainer = false) :
    exportPart leaf indent value = .error (.notAContainer value.typeName) := by
  cases value with
  | array items | object record => cases h
  | _ => rfl

section

variable {replace? : Option (Value → Value)} {indent : Nat} {value : Value}

/-- This error arises for what is no container only, and tells what was found
instead. A replacer does not change it. -/
theorem exportPart_eq_notAContainer_iff {found : String} :
    exportPart (leafWriter replace? indent) indent value = .error (.notAContainer found) ↔
      value.isContainer = false ∧ found = value.typeName := by
  cases hcontainer : value.isContainer with
  | false => simp [exportPart_leaf _ _ hcontainer, eq_comm]
  | true =>
      have hnames := exportPart_names replace? indent hcontainer
      unfold Names at hnames
      split at hnames
      · simp [hnames]
      · obtain ⟨part, hpart⟩ := hnames
        simp [hpart]

/-- The key that is named is the first one that cannot be written in the value
as it is after replacing. -/
theorem exportPart_eq_invalidKey_iff {key : String} :
    exportPart (leafWriter replace? indent) indent value = .error (.invalidKey key) ↔
      value.isContainer = true ∧ invalidKey? (value.replaced replace?).allKeys = some key := by
  cases hcontainer : value.isContainer with
  | false => simp [exportPart_leaf _ _ hcontainer]
  | true =>
      have hnames := exportPart_names replace? indent hcontainer
      unfold Names at hnames
      split at hnames
      · next first hfirst => simp [hnames, hfirst]
      · next hnone =>
        obtain ⟨part, hpart⟩ := hnames
        simp [hpart, hnone]

/-- There is a key to name exactly if a record has one that is no identifier. -/
theorem exists_invalidKey?_iff : (∃ key, invalidKey? value.allKeys = some key) ↔
    ∃ record, value.Holds (.object record) ∧
      ∃ key ∈ record.keys, isIdentifier key.toList = false := by
  rw [← Option.isSome_iff_exists, invalidKey?, List.find?_isSome]
  constructor
  · rintro ⟨key, hmem, hkey⟩
    obtain ⟨record, hholds, hrecord⟩ := Value.mem_allKeys_iff.1 hmem
    exact ⟨record, hholds, key, hrecord, by simpa using hkey⟩
  · rintro ⟨record, hholds, key, hrecord, hkey⟩
    exact ⟨key, Value.mem_allKeys_iff.2 ⟨record, hholds, hrecord⟩, by simp [hkey]⟩

end

def declarationRequests (indent : Nat) : List Output :=
  emptyArrayDeclarations.flatMap fun line =>
    if indent = 0 then [.text line] else [.text line, .newline]

def Part.requests (part : Part) (indent : Nat) : List Output :=
  (if part.usesEmptyArray then declarationRequests indent else []) ++ [.text part.text]

end Source

open Source

section

variable {σ : Type} (take : σ → Output → σ) (receiver : σ) (value : Value)
  (replace? : Option (Value → Value)) (indent : Nat)

/-- The receiver is handed all requests of a module, or nothing at all. -/
theorem Value.run_emit : (value.emit take replace? indent).run receiver =
    match exportPart (leafWriter replace? indent) indent value with
    | .ok part => (.ok (), (part.requests indent).foldl take receiver)
    | .error fault => (.error fault, receiver) := by
  rw [emit]
  cases exportPart (leafWriter replace? indent) indent value with
  | error fault => rfl
  | ok part =>
      obtain ⟨text, usesEmptyArray⟩ := part
      cases usesEmptyArray with
      | false => rfl
      | true => cases indent <;> rfl

/-- The writer fails exactly as the text that it would write does, whatever the
receiver takes. -/
theorem Value.emit_eq_error_iff {fault : SourceFault} :
    ((value.emit take replace? indent).run receiver).1 = .error fault ↔
      exportPart (leafWriter replace? indent) indent value = .error fault := by
  rw [run_emit]
  split <;> simp_all

/-- Writing a value fails for two reasons only. The first is that it is no
container, the second that some record in it, or in what a replacer gives for
its leaves, has a key that is no identifier; the first such key on the way
through the value is named. In both cases nothing has been handed to the
receiver. -/
theorem Value.emit_fails_iff :
    (∀ found, ((value.emit take replace? indent).run receiver).1 = .error (.notAContainer found) ↔
      value.isContainer = false ∧ found = value.typeName) ∧
    ((∃ key, ((value.emit take replace? indent).run receiver).1 = .error (.invalidKey key)) ↔
      value.isContainer = true ∧ ∃ record, (value.replaced replace?).Holds (object record) ∧
        ∃ key ∈ record.keys, isIdentifier key.toList = false) ∧
    (∀ key, ((value.emit take replace? indent).run receiver).1 = .error (.invalidKey key) ↔
      value.isContainer = true ∧
        (value.replaced replace?).allKeys.find? (fun key => !isIdentifier key.toList) = some key) ∧
    ∀ fault, ((value.emit take replace? indent).run receiver).1 = .error fault →
      ((value.emit take replace? indent).run receiver).2 = receiver := by
  simp only [emit_eq_error_iff]
  refine ⟨fun _ => exportPart_eq_notAContainer_iff, ?_, fun _ => exportPart_eq_invalidKey_iff, ?_⟩
  · simp only [exportPart_eq_invalidKey_iff, exists_and_left, exists_invalidKey?_iff]
  · intro fault hfault
    rw [run_emit, hfault]

end

/-- A replacer that gives keys of which some cannot be written. -/
def Value.opened : Value → Value
  | number value => object ⟨[("ok", null), ("1st", number value), ("", null)]⟩
  | other => other

theorem Value.emit_fails_iff_opened :
    ((emit (Sink.take Sink.unlimited) (array [array [], number .nan, null]) (some opened) 2).run
        .empty).1 = .error (.invalidKey "1st") ∧
      ((emit (Sink.take Sink.unlimited) (array [array [], number .nan, null]) (some opened) 2).run
        .empty).2 = .empty := by
  obtain ⟨-, -, hkey, hreceiver⟩ := emit_fails_iff (Sink.take Sink.unlimited) .empty
    (array [array [], number .nan, null]) (some opened) 2
  have hfirst := (hkey "1st").2 ⟨rfl, by decide⟩
  exact ⟨hfirst, hreceiver _ hfirst⟩

end ConfigNotation
