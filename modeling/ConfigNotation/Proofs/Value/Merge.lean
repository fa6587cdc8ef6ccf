import ConfigNotation.Value.Record
import Mathlib.Data.List.Basic
import Mathlib.Data.List.Induction

/-!
What a sequence of insertions leaves, in one piece: each key stands where it came first,
with the value that came last.
-/

namespace ConfigNotation.Record

variable {α : Type}

/-- The keys of some entries in the order of their first appearance, each with
the value of its last entry. -/
def merged (entries : List (String × α)) : Record α :=
  ⟨(entries.map (·.1)).eraseDups.filterMap fun key => (lookup key entries.reverse).map (key, ·)⟩

theorem eraseDups_concat (keys : List String) (key : String) :
    (keys ++ [key]).eraseDups = if key ∈ keys then keys.eraseDups else keys.eraseDups ++ [key] := by
  rw [List.eraseDups_append]
  split
  · next hmem => simp [List.removeAll, hmem]
  · next hnew => simp [List.removeAll, hnew, List.eraseDups_cons]

theorem insertAll_append (record : Record α) (first second : List (String × α)) :
    record.insertAll (first ++ second) = (record.insertAll first).insertAll second :=
  List.foldl_append

theorem ofEntries_concat (entries : List (String × α)) (key : String) (value : α) :
    ofEntries (entries ++ [(key, value)]) = (ofEntries entries).insert key value :=
  insertAll_append _ _ _

theorem put_of_not_mem {key : String} {entries : List (String × α)}
    (h : key ∉ entries.map (·.1)) (value : α) :
    put key value entries = entries ++ [(key, value)] := by
  induction entries with
  | nil => rfl
  | cons entry rest ih =>
      obtain ⟨name, old⟩ := entry
      rw [List.map_cons, List.mem_cons, not_or] at h
      rw [put, if_neg (Ne.symm h.1), ih h.2, List.cons_append]

/-- Entries in which each key stands once come to themselves. -/
theorem ofEntries_of_nodup {entries : List (String × α)} (h : (entries.map (·.1)).Nodup) :
    ofEntries entries = ⟨entries⟩ := by
  induction entries using List.reverseRecOn with
  | nil => rfl
  | append_singleton entries last ih =>
      rw [List.map_append, List.nodup_append] at h
      have hnew : last.1 ∉ entries.map (·.1) := fun hmember =>
        h.2.2 _ hmember _ List.mem_cons_self rfl
      rw [ofEntries_concat, ih h.1, insert, put_of_not_mem hnew]

theorem keys_insert (record : Record α) (key : String) (value : α) :
    (record.insert key value).keys =
      if key ∈ record.keys then record.keys else record.keys ++ [key] :=
  map_fst_put key value record.entries

theorem keys_ofEntries (entries : List (String × α)) :
    (ofEntries entries).keys = (entries.map (·.1)).eraseDups := by
  induction entries using List.reverseRecOn with
  | nil => rfl
  | append_singleton entries entry ih =>
      rw [ofEntries_concat, keys_insert, ih, List.map_append, List.map_singleton,
        eraseDups_concat]
      simp only [List.mem_eraseDups]

theorem get?_ofEntries (entries : List (String × α)) (key : String) :
    (ofEntries entries).get? key = lookup key entries.reverse := by
  induction entries using List.reverseRecOn with
  | nil => rfl
  | append_singleton entries entry ih =>
      rw [ofEntries_concat, get?_insert, ih, List.reverse_concat, lookup]
      simp only [eq_comm]

/-- A record in which each key stands once is given by its keys and what they
lead to. -/
theorem entries_eq_filterMap {entries : List (String × α)} (h : (entries.map (·.1)).Nodup) :
    entries = (entries.map (·.1)).filterMap fun key => (lookup key entries).map (key, ·) := by
  induction entries with
  | nil => rfl
  | cons entry rest ih =>
      obtain ⟨name, value⟩ := entry
      rw [List.map_cons, List.nodup_cons] at h
      have hrest : (rest.map (·.1)).filterMap
          (fun key => (lookup key ((name, value) :: rest)).map (key, ·)) = rest := by
        conv_rhs => rw [ih h.2]
        apply List.filterMap_congr
        intro key hkey
        rw [lookup, if_neg]
        rintro rfl
        exact h.1 hkey
      rw [List.map_cons, List.filterMap_cons, hrest, lookup, if_pos rfl]
      rfl

/-- Insertions one after the other come to the merged entries. -/
theorem ofEntries_eq_merged (entries : List (String × α)) :
    ofEntries entries = merged entries := by
  have hnodup : (ofEntries entries).keys.Nodup :=
    @nodup_keys_insertAll α empty List.nodup_nil entries
  have hentries := entries_eq_filterMap hnodup
  have hkeys : (ofEntries entries).entries.map (·.1) = _ := keys_ofEntries entries
  have hvalues : ∀ key, lookup key (ofEntries entries).entries = _ := get?_ofEntries entries
  simp only [hkeys, hvalues] at hentries
  exact congrArg Record.mk hentries

theorem insert_merged (entries : List (String × α)) (key : String) (value : α) :
    (merged entries).insert key value = merged (entries ++ [(key, value)]) := by
  rw [← ofEntries_eq_merged, ← ofEntries_eq_merged, ofEntries_concat]

theorem insertAll_merged (entries more : List (String × α)) :
    (merged entries).insertAll more = merged (entries ++ more) := by
  rw [← ofEntries_eq_merged, ← ofEntries_eq_merged]
  exact (insertAll_append _ _ _).symm

end ConfigNotation.Record
