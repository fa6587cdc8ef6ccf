import ConfigNotation.Proofs.Value.Keyed
import ConfigNotation.Source.Writer

/-!
Writing a value whose leaves are replaced. It is written as the value that has the replacements
in the place of its leaves: each leaf is asked about, and nothing that a replacement holds.
-/

namespace ConfigNotation

namespace Value

mutual

def mapLeaves (change : Value → Value) : Value → Value
  | array items => array (mapItemLeaves change items)
  | object ⟨entries⟩ => object ⟨mapEntryLeaves change entries⟩
  | leaf => change leaf

def mapItemLeaves (change : Value → Value) : List Value → List Value
  | [] => []
  | item :: rest => item.mapLeaves change :: mapItemLeaves change rest

def mapEntryLeaves (change : Value → Value) : List (String × Value) → List (String × Value)
  | [] => []
  | (key, item) :: rest => (key, item.mapLeaves change) :: mapEntryLeaves change rest

end

mutual

/-- Only what is given for the leaves of the value matters. -/
theorem mapLeaves_congr {change other : Value → Value} (value : Value)
    (h : ∀ leaf ∈ value.leaves, change leaf = other leaf) :
    value.mapLeaves change = value.mapLeaves other := by
  cases value with
  | array items => exact congrArg array (mapItemLeaves_congr items h)
  | object record =>
      exact congrArg (fun entries => object ⟨entries⟩) (mapEntryLeaves_congr record.entries h)
  | _ => exact h _ List.mem_cons_self

theorem mapItemLeaves_congr {change other : Value → Value} (items : List Value)
    (h : ∀ leaf ∈ itemsLeaves items, change leaf = other leaf) :
    mapItemLeaves change items = mapItemLeaves other items := by
  cases items with
  | nil => rfl
  | cons item rest =>
      rw [itemsLeaves, List.forall_mem_append] at h
      rw [mapItemLeaves, mapItemLeaves, mapLeaves_congr item h.1, mapItemLeaves_congr rest h.2]

theorem mapEntryLeaves_congr {change other : Value → Value} (entries : List (String × Value))
    (h : ∀ leaf ∈ entriesLeaves entries, change leaf = other leaf) :
    mapEntryLeaves change entries = mapEntryLeaves other entries := by
  match entries with
  | [] => rfl
  | (key, item) :: rest =>
      rw [entriesLeaves, List.forall_mem_append] at h
      rw [mapEntryLeaves, mapEntryLeaves, mapLeaves_congr item h.1,
        mapEntryLeaves_congr rest h.2]

end

theorem isContainer_mapLeaves (change : Value → Value) {value : Value}
    (h : value.isContainer = true) : (value.mapLeaves change).isContainer = true := by
  cases value with
  | array items | object record => rfl
  | _ => cases h

theorem isEmpty_mapEntryLeaves (change : Value → Value) (entries : List (String × Value)) :
    (mapEntryLeaves change entries).isEmpty = entries.isEmpty := by
  match entries with
  | [] => rfl
  | (key, item) :: rest => rfl

end Value

namespace Source

open Value

mutual

/-- A value is written with its leaves replaced as it is written with the
replacements in it. -/
theorem writeValue_replaced (replace : Value → Value) (indent level : Nat) (value : Value) :
    writeValue (replacedLeaf replace indent) indent level value =
      writeValue plainLeaf indent level (value.mapLeaves replace) := by
  match value with
  | .array [] => rfl
  | .array (item :: rest) =>
      rw [mapLeaves, mapItemLeaves, writeValue, writeValue]
      · rw [writeItems_replaced replace indent (level + 1) (item :: rest), mapItemLeaves]
      · simp
      · simp
  | .object ⟨entries⟩ =>
      rw [mapLeaves, writeValue, writeValue, isEmpty_mapEntryLeaves,
        writeEntries_replaced replace indent (level + 1) entries]
  | .null | .undefined | .boolean _ | .number _ | .bigInt _ | .string _ | .date _ | .regExp _
  | .buffer _ => rfl

theorem writeItems_replaced (replace : Value → Value) (indent level : Nat) (items : List Value) :
    writeItems (replacedLeaf replace indent) indent level items =
      writeItems plainLeaf indent level (mapItemLeaves replace items) := by
  match items with
  | [] => rfl
  | item :: rest =>
      rw [mapItemLeaves, writeItems, writeItems, writeValue_replaced replace indent level item,
        writeItems_replaced replace indent level rest]

theorem writeEntries_replaced (replace : Value → Value) (indent level : Nat)
    (entries : List (String × Value)) :
    writeEntries (replacedLeaf replace indent) indent level entries =
      writeEntries plainLeaf indent level (mapEntryLeaves replace entries) := by
  match entries with
  | [] => rfl
  | (key, item) :: rest =>
      rw [mapEntryLeaves, writeEntries, writeEntries,
        writeValue_replaced replace indent level item,
        writeEntries_replaced replace indent level rest]

end

theorem exportPart_replaced (replace : Value → Value) (indent : Nat) {value : Value}
    (h : value.isContainer = true) :
    exportPart (leafWriter (some replace) indent) indent value =
      exportPart (leafWriter none indent) indent (value.mapLeaves replace) := by
  have hwrite := writeValue_replaced replace indent 0 value
  cases value with
  | array items | object record =>
      rw [mapLeaves] at hwrite ⊢
      simp only [exportPart, leafWriter, hwrite]
  | _ => cases h

end Source

/-- A container is written with a replacer exactly as the container with the
replacements in the place of its leaves is written without one. So only what the
replacer gives for these leaves matters, and not what it would give for anything
in a replacement. -/
theorem Value.source_replaced {value : Value} (h : value.isContainer = true)
    (replace : Value → Value) (indent : Nat) :
    value.source (some replace) indent = (value.mapLeaves replace).source none indent ∧
      ∀ other : Value → Value, (∀ leaf ∈ value.leaves, other leaf = replace leaf) →
        value.source (some other) indent = value.source (some replace) indent := by
  have hsource (change : Value → Value) :
      value.source (some change) indent = (value.mapLeaves change).source none indent := by
    simp only [source, sourcePieces, Source.exportPart_replaced change indent h]
  constructor
  · exact hsource replace
  · intro other hother
    rw [hsource, hsource, mapLeaves_congr value hother]

/-- A replacer that gives an empty array, and more of what it is asked about. -/
def Value.expand : Value → Value
  | string "" => array []
  | string text => array [string "", string text]
  | other => other

theorem Value.source_replaced_expand :
    (object ⟨[("tags", string ""), ("more", array [string "a", null])]⟩).isContainer = true ∧
      (object ⟨[("tags", string ""), ("more", array [string "a", null])]⟩).source (some expand) 2 =
        (object ⟨[("tags", array []),
          ("more", array [array [string "", string "a"], null])]⟩).source none 2 := by
  exact ⟨rfl, (source_replaced rfl expand 2).1⟩

end ConfigNotation
