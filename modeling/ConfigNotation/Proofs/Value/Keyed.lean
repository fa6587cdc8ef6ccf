import ConfigNotation.Text.CharClass
import ConfigNotation.Value.Basic

/-!
Values by their keys and their leaves: the keys of records are identifiers, each once in a
record, and the leaves, which are the values that hold no others, satisfy a condition.
-/

namespace ConfigNotation

theorem Record.mem_of_get? {α : Type} {record : Record α} {key : String} {value : α}
    (h : record.get? key = some value) : (key, value) ∈ record.entries := by
  obtain ⟨entries⟩ := record
  rw [get?] at h
  dsimp only at h ⊢
  induction entries with
  | nil => cases h
  | cons entry rest ih =>
      obtain ⟨name, old⟩ := entry
      rw [lookup] at h
      split at h
      · next hname =>
        cases h
        rw [hname]
        exact List.mem_cons_self
      · exact List.mem_cons_of_mem _ (ih h)

theorem Record.get?_of_mem {α : Type} {record : Record α} (hkeys : record.keys.Nodup)
    {key : String} {value : α} (h : (key, value) ∈ record.entries) :
    record.get? key = some value := by
  obtain ⟨entries⟩ := record
  rw [get?]
  dsimp only [keys] at hkeys h ⊢
  induction entries with
  | nil => cases h
  | cons entry rest ih =>
      obtain ⟨name, first⟩ := entry
      rw [List.map_cons, List.nodup_cons] at hkeys
      rw [lookup]
      rcases List.mem_cons.1 h with heq | hrest
      · cases heq
        exact if_pos rfl
      · rw [if_neg, ih hkeys.2 hrest]
        rintro rfl
        exact hkeys.1 (List.mem_map.2 ⟨_, hrest, rfl⟩)

namespace Value

def isContainer : Value → Bool
  | array _ | object _ => true
  | _ => false

mutual

/-- The values in a value that are no containers. -/
def leaves : Value → List Value
  | array items => itemsLeaves items
  | object ⟨entries⟩ => entriesLeaves entries
  | leaf => [leaf]

def itemsLeaves : List Value → List Value
  | [] => []
  | item :: rest => item.leaves ++ itemsLeaves rest

def entriesLeaves : List (String × Value) → List Value
  | [] => []
  | (_, item) :: rest => item.leaves ++ entriesLeaves rest

end

mutual

/-- Values whose keys are identifiers, each once in a record, and whose leaves
satisfy a condition. -/
def Keyed (condition : Value → Prop) : Value → Prop
  | array items => ItemsKeyed condition items
  | object ⟨entries⟩ => (entries.map (·.1)).Nodup ∧ EntriesKeyed condition entries
  | leaf => condition leaf

def ItemsKeyed (condition : Value → Prop) : List Value → Prop
  | [] => True
  | item :: rest => item.Keyed condition ∧ ItemsKeyed condition rest

def EntriesKeyed (condition : Value → Prop) : List (String × Value) → Prop
  | [] => True
  | (key, item) :: rest =>
      isIdentifier key.toList = true ∧ item.Keyed condition ∧ EntriesKeyed condition rest

end

section

variable {condition other : Value → Prop}

theorem keyed_leaf {value : Value} (hleaf : value.isContainer = false) :
    value.Keyed condition ↔ condition value := by
  cases value <;> first | exact .rfl | cases hleaf

theorem itemsKeyed_iff {items : List Value} :
    ItemsKeyed condition items ↔ ∀ item ∈ items, item.Keyed condition := by
  induction items with
  | nil => simp [ItemsKeyed]
  | cons item rest ih => rw [ItemsKeyed, ih, List.forall_mem_cons]

theorem entriesKeyed_iff {entries : List (String × Value)} :
    EntriesKeyed condition entries ↔
      ∀ entry ∈ entries, isIdentifier entry.1.toList = true ∧ entry.2.Keyed condition := by
  induction entries with
  | nil => simp [EntriesKeyed]
  | cons entry rest ih => rw [EntriesKeyed, ih, List.forall_mem_cons, and_assoc]

theorem keyed_array {items : List Value} :
    (array items).Keyed condition ↔ ∀ item ∈ items, item.Keyed condition :=
  itemsKeyed_iff

/-- A record is keyed if its keys are different identifiers and its values are
keyed. -/
theorem keyed_object {record : Record Value} :
    (object record).Keyed condition ↔ record.keys.Nodup ∧
      ∀ entry ∈ record.entries, isIdentifier entry.1.toList = true ∧ entry.2.Keyed condition :=
  and_congr_right fun _ => entriesKeyed_iff

mutual

/-- Another condition that the leaves satisfy as well can take the place of the
first. -/
theorem Keyed.imp {value : Value} (h : value.Keyed condition)
    (hleaves : ∀ leaf ∈ value.leaves, condition leaf → other leaf) :
    value.Keyed other := by
  cases value with
  | array items => exact ItemsKeyed.imp h hleaves
  | object record => exact ⟨h.1, EntriesKeyed.imp h.2 hleaves⟩
  | _ => exact hleaves _ List.mem_cons_self h

theorem ItemsKeyed.imp {items : List Value} (h : ItemsKeyed condition items)
    (hleaves : ∀ leaf ∈ itemsLeaves items, condition leaf → other leaf) :
    ItemsKeyed other items := by
  cases items with
  | nil => trivial
  | cons item rest =>
      rw [itemsLeaves, List.forall_mem_append] at hleaves
      exact ⟨Keyed.imp h.1 hleaves.1, ItemsKeyed.imp h.2 hleaves.2⟩

theorem EntriesKeyed.imp {entries : List (String × Value)} (h : EntriesKeyed condition entries)
    (hleaves : ∀ leaf ∈ entriesLeaves entries, condition leaf → other leaf) :
    EntriesKeyed other entries := by
  match entries, h with
  | [], _ => trivial
  | (key, item) :: rest, ⟨hkey, hitem, hrest⟩ =>
      rw [entriesLeaves, List.forall_mem_append] at hleaves
      exact ⟨hkey, Keyed.imp hitem hleaves.1, EntriesKeyed.imp hrest hleaves.2⟩

end

namespace Keyed

/-- Inserting an entry under an identifier keeps a record keyed, since a key
that is there already is replaced in place. -/
theorem insert {record : Record Value} {key : String} {value : Value}
    (h : (object record).Keyed condition) (hkey : isIdentifier key.toList = true)
    (hvalue : value.Keyed condition) :
    (object (record.insert key value)).Keyed condition := by
  rw [keyed_object] at h ⊢
  refine ⟨Record.nodup_keys_insert h.1 key value, fun entry hentry => ?_⟩
  rcases Record.mem_put hentry with rfl | hbefore
  · exact ⟨hkey, hvalue⟩
  · exact h.2 entry hbefore

theorem insertAll {record : Record Value} {entries : List (String × Value)}
    (h : (object record).Keyed condition) (hentries : EntriesKeyed condition entries) :
    (object (record.insertAll entries)).Keyed condition := by
  rw [keyed_object] at h ⊢
  refine ⟨Record.nodup_keys_insertAll h.1 entries, fun entry hentry => ?_⟩
  rcases Record.mem_insertAll hentry with hbefore | hadded
  · exact h.2 entry hbefore
  · exact entriesKeyed_iff.1 hentries entry hadded

theorem get? {value found : Value} {key : String} (h : value.Keyed condition)
    (hfound : value.get? key = some found) : found.Keyed condition := by
  cases value with
  | object record =>
      have hmember : (key, found) ∈ record.entries := Record.mem_of_get? hfound
      exact ((keyed_object.1 h).2 _ hmember).2
  | array items =>
      obtain ⟨place, _, hitem⟩ := Option.bind_eq_some_iff.1 hfound
      exact keyed_array.1 h found (List.mem_of_getElem? hitem)
  | _ => cases hfound

/-- What a path leads to inside a keyed value is keyed. -/
theorem follow? {value found : Value} {path : List String} (h : value.Keyed condition)
    (hfound : value.follow? path = some found) : found.Keyed condition := by
  induction path generalizing value with
  | nil =>
      cases hfound
      exact h
  | cons key keys ih =>
      obtain ⟨next, hnext, hrest⟩ := Option.bind_eq_some_iff.1 hfound
      exact ih (h.get? hnext) hrest

/-- Where a path leads nowhere, the value is undefined. -/
theorem follow {value : Value} (h : value.Keyed condition) (hundefined : condition undefined)
    (path : List String) : (value.follow path).Keyed condition := by
  rw [Value.follow]
  cases hfound : value.follow? path with
  | none => exact hundefined
  | some found => exact h.follow? hfound

end Keyed

end

end Value

end ConfigNotation
