import ConfigNotation.Proofs.Value.Keyed
import ConfigNotation.Proofs.Value.Keys
import ConfigNotation.Proofs.Value.Merge

/-!
The parts of values, and values whose records are built by insertions. These are the values in
which no record has a key twice.
-/

namespace ConfigNotation.Value

/-- The elements of an array, and the values of the entries of a record. -/
def parts : Value → List Value
  | array items => items
  | object record => record.values
  | _ => []

theorem sizeOf_lt_of_mem_parts {value part : Value} (h : part ∈ value.parts) :
    sizeOf part < sizeOf value := by
  cases value with
  | array items =>
      have hsize : sizeOf part < sizeOf items := List.sizeOf_lt_of_mem h
      rw [array.sizeOf_spec]
      omega
  | object record =>
      obtain ⟨entries⟩ := record
      obtain ⟨entry, hentry, rfl⟩ := List.mem_map.1 h
      have hsize : sizeOf entry < sizeOf entries := List.sizeOf_lt_of_mem hentry
      obtain ⟨key, item⟩ := entry
      rw [Prod.mk.sizeOf_spec] at hsize
      rw [object.sizeOf_spec, Record.mk.sizeOf_spec]
      dsimp only
      omega
  | _ => cases h

/-- What holds of a value if it holds of its parts holds of all values. -/
theorem parts_induction {motive : Value → Prop}
    (step : ∀ value, (∀ part ∈ value.parts, motive part) → motive value) (value : Value) :
    motive value :=
  step value fun part _ => parts_induction step part
termination_by value
decreasing_by exact sizeOf_lt_of_mem_parts ‹_›

theorem holds_iff {value inner : Value} :
    value.Holds inner ↔ inner = value ∨ ∃ part ∈ value.parts, part.Holds inner := by
  constructor
  · intro h
    cases h with
    | self => exact .inl rfl
    | item hitem hinner => exact .inr ⟨_, hitem, hinner⟩
    | entry hentry hinner => exact .inr ⟨_, List.mem_map_of_mem hentry, hinner⟩
  · rintro (rfl | ⟨part, hpart, hinner⟩)
    · exact .self _
    · cases value with
      | array items => exact .item hpart hinner
      | object record =>
          obtain ⟨entry, hentry, rfl⟩ := List.mem_map.1 hpart
          exact .entry hentry hinner
      | _ => cases hpart

/-- Each record in a value, at whatever depth, is built by insertions. -/
def IsBuilt (value : Value) : Prop :=
  ∀ record, value.Holds (object record) → ∃ insertions, record = Record.ofEntries insertions

theorem exists_insertions_iff {record : Record Value} :
    (∃ insertions, record = Record.ofEntries insertions) ↔ record.keys.Nodup := by
  constructor
  · rintro ⟨insertions, rfl⟩
    exact @Record.nodup_keys_insertAll Value .empty List.nodup_nil insertions
  · intro h
    exact ⟨record.entries, (Record.ofEntries_of_nodup h).symm⟩

theorem isBuilt_iff {value : Value} :
    value.IsBuilt ↔ (∀ record, value = object record → record.keys.Nodup) ∧
      ∀ part ∈ value.parts, part.IsBuilt := by
  constructor
  · intro h
    refine ⟨fun record hrecord => ?_, fun part hpart record hinner => ?_⟩
    · exact exists_insertions_iff.1 (h record (hrecord ▸ .self _))
    · exact h record (holds_iff.2 (.inr ⟨part, hpart, hinner⟩))
  · rintro ⟨hown, hparts⟩ record hinner
    rcases holds_iff.1 hinner with hrecord | ⟨part, hpart, hinner⟩
    · exact exists_insertions_iff.2 (hown record hrecord.symm)
    · exact hparts part hpart record hinner

theorem IsBuilt.nodup {record : Record Value} (h : (object record).IsBuilt) :
    record.keys.Nodup :=
  (isBuilt_iff.1 h).1 record rfl

theorem IsBuilt.part {value part : Value} (h : value.IsBuilt) (hpart : part ∈ value.parts) :
    part.IsBuilt :=
  (isBuilt_iff.1 h).2 part hpart

theorem mem_parts_of_get? {record : Record Value} {key : String} {value : Value}
    (h : record.get? key = some value) : value ∈ (object record).parts :=
  List.mem_map.2 ⟨_, Record.mem_of_get? h, rfl⟩

end ConfigNotation.Value
