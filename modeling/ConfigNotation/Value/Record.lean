/-!
Maps from names that keep the order of first insertion. An insertion under a
known name replaces its entry in place, and a record built by insertions has
each name once.
-/

namespace ConfigNotation

structure Record (α : Type) where
  entries : List (String × α)
  deriving Repr

namespace Record

variable {α : Type}

def empty : Record α := ⟨[]⟩

instance : Inhabited (Record α) := ⟨empty⟩

def size (record : Record α) : Nat := record.entries.length

def isEmpty (record : Record α) : Bool := record.entries.isEmpty

def keys (record : Record α) : List String := record.entries.map (·.1)

def values (record : Record α) : List α := record.entries.map (·.2)

/-- The first entry with a name. -/
def lookup (key : String) : List (String × α) → Option α
  | [] => none
  | (name, value) :: rest => if name = key then some value else lookup key rest

def get? (record : Record α) (key : String) : Option α := lookup key record.entries

def contains (record : Record α) (key : String) : Bool := (record.get? key).isSome

/-- Replaces the first entry with a name, or puts one at the end. -/
def put (key : String) (value : α) : List (String × α) → List (String × α)
  | [] => [(key, value)]
  | (name, old) :: rest =>
      if name = key then (name, value) :: rest else (name, old) :: put key value rest

def insert (record : Record α) (key : String) (value : α) : Record α :=
  ⟨put key value record.entries⟩

def insertAll (record : Record α) (entries : List (String × α)) : Record α :=
  entries.foldl (fun record (key, value) => record.insert key value) record

def ofEntries (entries : List (String × α)) : Record α := empty.insertAll entries

theorem lookup_put_self (key : String) (value : α) (entries : List (String × α)) :
    lookup key (put key value entries) = some value := by
  induction entries with
  | nil => simp [put, lookup]
  | cons entry rest ih =>
      obtain ⟨name, old⟩ := entry
      by_cases h : name = key <;> simp [put, lookup, h, ih]

theorem lookup_put_of_ne {key other : String} (h : other ≠ key) (value : α)
    (entries : List (String × α)) :
    lookup other (put key value entries) = lookup other entries := by
  induction entries with
  | nil => simp [put, lookup, Ne.symm h]
  | cons entry rest ih =>
      obtain ⟨name, old⟩ := entry
      by_cases hname : name = key
      · subst hname
        simp [put, lookup, Ne.symm h]
      · simp [put, lookup, hname, ih]

@[simp]
theorem get?_insert (record : Record α) (key other : String) (value : α) :
    (record.insert key value).get? other =
      if other = key then some value else record.get? other := by
  split
  · next h => subst h; exact lookup_put_self _ _ _
  · next h => exact lookup_put_of_ne h _ _

theorem lookup_eq_none_iff {key : String} {entries : List (String × α)} :
    lookup key entries = none ↔ key ∉ entries.map (·.1) := by
  induction entries with
  | nil => simp [lookup]
  | cons entry rest ih =>
      obtain ⟨name, old⟩ := entry
      by_cases h : name = key
      · simp [lookup, h]
      · simp [lookup, h, Ne.symm h, ih]

/-- A record has a value for its names and for no others. -/
theorem get?_eq_none_iff {record : Record α} {key : String} :
    record.get? key = none ↔ key ∉ record.keys :=
  lookup_eq_none_iff

theorem mem_put {key : String} {value : α} {entries : List (String × α)} {entry : String × α}
    (h : entry ∈ put key value entries) : entry = (key, value) ∨ entry ∈ entries := by
  induction entries with
  | nil => exact .inl (List.mem_singleton.1 h)
  | cons first rest ih =>
      obtain ⟨name, old⟩ := first
      rw [put] at h
      split at h
      · next hname =>
        rcases List.mem_cons.1 h with rfl | hrest
        · exact .inl (by rw [hname])
        · exact .inr (List.mem_cons_of_mem _ hrest)
      · rcases List.mem_cons.1 h with rfl | hrest
        · exact .inr List.mem_cons_self
        · exact (ih hrest).imp_right (List.mem_cons_of_mem _)

/-- An insertion leaves the names as they are, or puts one at the end. -/
theorem map_fst_put (key : String) (value : α) (entries : List (String × α)) :
    (put key value entries).map (·.1) =
      if key ∈ entries.map (·.1) then entries.map (·.1) else entries.map (·.1) ++ [key] := by
  induction entries with
  | nil => simp [put]
  | cons entry rest ih =>
      obtain ⟨name, old⟩ := entry
      by_cases h : name = key
      · simp [put, h]
      · by_cases hrest : key ∈ rest.map (·.1) <;> simp_all [put, Ne.symm h]

theorem nodup_keys_insert {record : Record α} (h : record.keys.Nodup) (key : String) (value : α) :
    (record.insert key value).keys.Nodup := by
  rw [keys, insert, map_fst_put]
  split
  · exact h
  · next hnew =>
    refine List.nodup_append.2 ⟨h, List.pairwise_singleton _ key, ?_⟩
    intro name hname other hother heq
    rw [List.mem_singleton.1 hother] at heq
    exact hnew (heq ▸ hname)

theorem nodup_keys_insertAll {record : Record α} (h : record.keys.Nodup)
    (entries : List (String × α)) : (record.insertAll entries).keys.Nodup := by
  induction entries generalizing record with
  | nil => exact h
  | cons entry rest ih => exact ih (nodup_keys_insert h entry.1 entry.2)

theorem mem_insertAll {record : Record α} {entries : List (String × α)} {entry : String × α}
    (h : entry ∈ (record.insertAll entries).entries) :
    entry ∈ record.entries ∨ entry ∈ entries := by
  induction entries generalizing record with
  | nil => exact .inl h
  | cons first rest ih =>
      rcases ih h with hbefore | hrest
      · rcases mem_put hbefore with rfl | hmem
        · exact .inr List.mem_cons_self
        · exact .inl hmem
      · exact .inr (List.mem_cons_of_mem first hrest)

theorem sizeOf_lookup_lt [SizeOf α] {key : String} {entries : List (String × α)} {value : α}
    (h : lookup key entries = some value) : sizeOf value < sizeOf entries := by
  induction entries with
  | nil => simp [lookup] at h
  | cons entry rest ih =>
      obtain ⟨name, old⟩ := entry
      simp only [lookup] at h
      split at h
      · cases h
        simp only [List.cons.sizeOf_spec, Prod.mk.sizeOf_spec]
        omega
      · have := ih h
        simp only [List.cons.sizeOf_spec]
        omega

end Record

end ConfigNotation
