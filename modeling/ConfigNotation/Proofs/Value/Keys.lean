import ConfigNotation.Value.Basic

/-!
The keys of all records in a value, in the order in which they are met on the way through it,
and the values inside a value.
-/

namespace ConfigNotation.Value

mutual

/-- The keys of all records in a value, each in front of those in its own
value. -/
def allKeys : Value → List String
  | array items => itemsKeys items
  | object ⟨entries⟩ => entriesKeys entries
  | _ => []

def itemsKeys : List Value → List String
  | [] => []
  | item :: rest => item.allKeys ++ itemsKeys rest

def entriesKeys : List (String × Value) → List String
  | [] => []
  | (key, item) :: rest => key :: (item.allKeys ++ entriesKeys rest)

end

/-- The value itself, and what is inside one of its elements or entries. -/
inductive Holds : Value → Value → Prop where
  | self (value : Value) : Holds value value
  | item {items : List Value} {item part : Value} (hitem : item ∈ items)
      (hpart : Holds item part) : Holds (array items) part
  | entry {record : Record Value} {entry : String × Value} {part : Value}
      (hentry : entry ∈ record.entries) (hpart : Holds entry.2 part) : Holds (object record) part

theorem mem_itemsKeys_iff {key : String} {items : List Value} :
    key ∈ itemsKeys items ↔ ∃ item ∈ items, key ∈ item.allKeys := by
  induction items with
  | nil => simp [itemsKeys]
  | cons item rest ih => simp [itemsKeys, ih]

theorem mem_entriesKeys_iff {key : String} {entries : List (String × Value)} :
    key ∈ entriesKeys entries ↔
      ∃ entry ∈ entries, key = entry.1 ∨ key ∈ entry.2.allKeys := by
  induction entries with
  | nil => simp [entriesKeys]
  | cons entry rest ih => simp [entriesKeys, ih, or_assoc]

mutual

theorem holds_of_mem_allKeys {key : String} {value : Value} (h : key ∈ value.allKeys) :
    ∃ record, value.Holds (object record) ∧ key ∈ record.keys := by
  cases value with
  | array items =>
      obtain ⟨item, hitem, record, hholds, hkey⟩ := holds_of_mem_itemsKeys h
      exact ⟨record, .item hitem hholds, hkey⟩
  | object record =>
      rcases holds_of_mem_entriesKeys h with hown | ⟨entry, hentry, inner, hholds, hkey⟩
      · exact ⟨record, .self _, hown⟩
      · exact ⟨inner, .entry hentry hholds, hkey⟩
  | _ => cases h

theorem holds_of_mem_itemsKeys {key : String} {items : List Value} (h : key ∈ itemsKeys items) :
    ∃ item ∈ items, ∃ record, item.Holds (object record) ∧ key ∈ record.keys := by
  cases items with
  | nil => cases h
  | cons item rest =>
      rcases List.mem_append.1 h with hfirst | hrest
      · exact ⟨item, List.mem_cons_self, holds_of_mem_allKeys hfirst⟩
      · obtain ⟨other, hother, hholds⟩ := holds_of_mem_itemsKeys hrest
        exact ⟨other, List.mem_cons_of_mem item hother, hholds⟩

theorem holds_of_mem_entriesKeys {key : String} {entries : List (String × Value)}
    (h : key ∈ entriesKeys entries) :
    key ∈ entries.map (·.1) ∨
      ∃ entry ∈ entries, ∃ record, entry.2.Holds (object record) ∧ key ∈ record.keys := by
  match entries with
  | [] => cases h
  | (name, item) :: rest =>
      rcases List.mem_cons.1 h with rfl | h
      · exact .inl List.mem_cons_self
      rcases List.mem_append.1 h with hfirst | hrest
      · exact .inr ⟨(name, item), List.mem_cons_self, holds_of_mem_allKeys hfirst⟩
      · rcases holds_of_mem_entriesKeys hrest with hkey | ⟨other, hother, hholds⟩
        · exact .inl (List.mem_cons_of_mem name hkey)
        · exact .inr ⟨other, List.mem_cons_of_mem _ hother, hholds⟩

end

/-- The keys met in a value are those of the records that it holds. -/
theorem mem_allKeys_iff {key : String} {value : Value} :
    key ∈ value.allKeys ↔ ∃ record, value.Holds (object record) ∧ key ∈ record.keys := by
  constructor
  · exact holds_of_mem_allKeys
  · rintro ⟨record, hholds, hkey⟩
    generalize hpart : object record = part at hholds
    induction hholds with
    | self value =>
        subst hpart
        obtain ⟨entry, hentry, rfl⟩ := List.mem_map.1 hkey
        exact mem_entriesKeys_iff.2 ⟨entry, hentry, .inl rfl⟩
    | item hitem _ ih => exact mem_itemsKeys_iff.2 ⟨_, hitem, ih hpart⟩
    | entry hentry _ ih => exact mem_entriesKeys_iff.2 ⟨_, hentry, .inr (ih hpart)⟩

end ConfigNotation.Value
