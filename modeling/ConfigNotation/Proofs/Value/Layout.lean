import ConfigNotation.Proofs.Value.Keyed
import ConfigNotation.Proofs.Value.Merge

/-!
The layout of a record: its entries in order, and an index that leads from each key to the place
of its entry. A place that the index names is read without a check, so such a step may panic. It
never does after insertions into the empty record: each insertion keeps the index in step with
the entries, and these are the entries of the record with the same insertions.
-/

namespace ConfigNotation.Record

variable {α : Type}

/-- The entries of a record in order, and the places of their keys. -/
structure Layout (α : Type) where
  entries : List (String × α)
  index : Std.HashMap String Nat

/-- What a key was given last, if it was given anything, by insertions one after
the other. -/
def LastGiven (insertions : List (String × α)) (key : String) : Option α → Prop
  | some value => ∃ before after,
      insertions = before ++ (key, value) :: after ∧ key ∉ after.map (·.1)
  | none => key ∉ insertions.map (·.1)

theorem lastGiven_get? (insertions : List (String × α)) (key : String) :
    LastGiven insertions key ((ofEntries insertions).get? key) := by
  induction insertions using List.reverseRecOn with
  | nil => exact List.not_mem_nil
  | append_singleton insertions last ih =>
      obtain ⟨name, value⟩ := last
      rw [ofEntries_concat, get?_insert]
      split
      · next hname => exact ⟨insertions, [], by rw [hname], List.not_mem_nil⟩
      · next hother =>
        cases hfound : (ofEntries insertions).get? key with
        | none =>
            rw [hfound] at ih
            simpa [LastGiven, hother] using ih
        | some found =>
            rw [hfound] at ih
            obtain ⟨before, after, rfl, hafter⟩ := ih
            exact ⟨before, after ++ [(name, value)], by simp, by simpa [hother] using hafter⟩

/-- An insertion under a known key puts its value at the place of the key. -/
theorem put_eq_set {entries : List (String × α)} (hkeys : (entries.map (·.1)).Nodup)
    {place : Nat} {key : String} {old : α} (h : entries[place]? = some (key, old)) (value : α) :
    put key value entries = entries.set place (key, value) := by
  induction entries generalizing place with
  | nil => cases h
  | cons entry rest ih =>
      obtain ⟨name, first⟩ := entry
      rw [List.map_cons, List.nodup_cons] at hkeys
      cases place with
      | zero =>
          cases h
          rw [put, if_pos rfl, List.set_cons_zero]
      | succ place =>
          rw [List.getElem?_cons_succ] at h
          have hother : name ≠ key := by
            rintro rfl
            exact hkeys.1 (List.mem_map.2 ⟨_, List.mem_of_getElem? h, rfl⟩)
          rw [put, if_neg hother, ih hkeys.2 h, List.set_cons_succ]

namespace Layout

def empty : Layout α := ⟨[], ∅⟩

def keys (layout : Layout α) : List String := layout.entries.map (·.1)

def toRecord (layout : Layout α) : Record α := ⟨layout.entries⟩

def contains (layout : Layout α) (key : String) : Bool := layout.index.contains key

/-- The value under a key, if there is one. There is no result where the index
names a place without an entry. -/
def get? (layout : Layout α) (key : String) : Option (Option α) :=
  match layout.index[key]? with
  | some place => layout.entries[place]?.map fun entry => some entry.2
  | none => some none

/-- The value that was under a key before, and what comes of the insertion.
There is no result where the index names a place without an entry. -/
def insert? (layout : Layout α) (key : String) (value : α) : Option (Option α × Layout α) :=
  match layout.index[key]? with
  | some place => layout.entries[place]?.map fun entry =>
      (some entry.2, { layout with entries := layout.entries.set place (entry.1, value) })
  | none => some (none,
      ⟨layout.entries ++ [(key, value)], layout.index.insert key layout.entries.length⟩)

def insertAll? (layout : Layout α) : List (String × α) → Option (Layout α)
  | [] => some layout
  | (key, value) :: rest => (layout.insert? key value).bind fun (_, next) => next.insertAll? rest

def ofEntries? (entries : List (String × α)) : Option (Layout α) := empty.insertAll? entries

/-- The index leads from each key to the place of its entry, and from no other
key anywhere. -/
def IsLinked (layout : Layout α) : Prop :=
  ∀ (key : String) (place : Nat),
    layout.index[key]? = some place ↔ layout.keys[place]? = some key

theorem isLinked_empty : (empty : Layout α).IsLinked := by
  simp [IsLinked, empty, keys]

variable {layout : Layout α}

/-- A key with two places would be led to both of them. -/
theorem IsLinked.nodup (h : layout.IsLinked) : layout.keys.Nodup := by
  refine List.pairwise_iff_getElem.2 fun first second hfirst hsecond hlt hsame => ?_
  have hindex := (h _ first).2 (List.getElem?_eq_getElem hfirst)
  rw [hsame, (h _ second).2 (List.getElem?_eq_getElem hsecond), Option.some.injEq] at hindex
  omega

theorem IsLinked.index_eq_none_iff (h : layout.IsLinked) {key : String} :
    layout.index[key]? = none ↔ key ∉ layout.keys := by
  rw [Option.eq_none_iff_forall_ne_some, List.mem_iff_getElem?, not_exists]
  exact forall_congr' fun place => not_congr (h key place)

theorem IsLinked.contains_iff (h : layout.IsLinked) {key : String} :
    layout.contains key = true ↔ key ∈ layout.keys := by
  rw [contains, Std.HashMap.contains_eq_isSome_getElem?, Option.isSome_iff_ne_none,
    ne_eq, h.index_eq_none_iff, not_not]

/-- The place that the index names for a key has an entry, and it is the entry
of the key. -/
theorem IsLinked.exists_entry (h : layout.IsLinked) {key : String} {place : Nat}
    (hplace : layout.index[key]? = some place) :
    ∃ value, layout.entries[place]? = some (key, value) ∧
      layout.toRecord.get? key = some value := by
  have hkey := (h key place).1 hplace
  rw [keys, List.getElem?_map, Option.map_eq_some_iff] at hkey
  obtain ⟨⟨name, value⟩, hentry, rfl⟩ := hkey
  have hkeys : layout.toRecord.keys.Nodup := h.nodup
  exact ⟨value, hentry, get?_of_mem hkeys (List.mem_of_getElem? hentry)⟩

theorem IsLinked.get?_eq (h : layout.IsLinked) (key : String) :
    layout.get? key = some (layout.toRecord.get? key) := by
  cases hplace : layout.index[key]? with
  | none =>
      have habsent : layout.toRecord.get? key = none :=
        get?_eq_none_iff.2 (h.index_eq_none_iff.1 hplace)
      rw [get?, hplace, habsent]
  | some place =>
      obtain ⟨value, hentry, hvalue⟩ := h.exists_entry hplace
      simp only [get?, hplace, hentry, hvalue, Option.map_some]

/-- A new key stands behind all others, and the index leads to its place. -/
theorem IsLinked.concat (h : layout.IsLinked) {key : String} (hnew : key ∉ layout.keys)
    (value : α) :
    IsLinked ⟨layout.entries ++ [(key, value)],
      layout.index.insert key layout.entries.length⟩ := by
  intro name place
  have hkeys : (layout.entries ++ [(key, value)]).map (·.1) = layout.keys ++ [key] :=
    List.map_append
  have hlength : layout.entries.length = layout.keys.length := (List.length_map _).symm
  rw [keys, hkeys, Std.HashMap.getElem?_insert, hlength, List.getElem?_append]
  -- The new key is found at the last place only, and any other key at an old place only.
  by_cases hname : key = name
  · subst hname
    rw [if_pos (beq_self_eq_true key), Option.some.injEq]
    constructor
    · rintro rfl
      simp
    · intro hplace
      split at hplace
      · exact absurd (List.mem_of_getElem? hplace) hnew
      · have hlast := (List.getElem?_eq_some_iff.1 hplace).1
        rw [List.length_singleton] at hlast
        omega
  · rw [if_neg (by simpa using hname), h name place]
    split
    · rfl
    · next hbehind =>
      rw [List.getElem?_eq_none (Nat.le_of_not_lt hbehind)]
      refine iff_of_false nofun fun hlast => hname ?_
      exact (List.mem_singleton.1 (List.mem_of_getElem? hlast)).symm

/-- An insertion gives back what was under its key, keeps the index linked, and
leaves the record with the same insertion. -/
theorem IsLinked.insert?_eq (h : layout.IsLinked) (key : String) (value : α) :
    ∃ next, layout.insert? key value = some (layout.toRecord.get? key, next) ∧
      next.IsLinked ∧ next.toRecord = layout.toRecord.insert key value := by
  cases hplace : layout.index[key]? with
  | none =>
      have hnew := h.index_eq_none_iff.1 hplace
      have habsent : layout.toRecord.get? key = none := get?_eq_none_iff.2 hnew
      refine ⟨_, by rw [insert?, hplace, habsent], h.concat hnew value, ?_⟩
      exact congrArg Record.mk (put_of_not_mem hnew value).symm
  | some place =>
      obtain ⟨old, hentry, hold⟩ := h.exists_entry hplace
      refine ⟨⟨layout.entries.set place (key, value), layout.index⟩, ?_, ?_, ?_⟩
      · simp only [insert?, hplace, hentry, hold, Option.map_some]
      · obtain ⟨hbound, hkey⟩ := List.getElem?_eq_some_iff.1 ((h key place).1 hplace)
        have hkeys : (layout.entries.set place (key, value)).map (·.1) = layout.keys := by
          rw [List.map_set, ← hkey]
          exact List.set_getElem_self hbound
        intro name other
        rw [keys, hkeys]
        exact h name other
      · exact congrArg Record.mk (put_eq_set h.nodup hentry value).symm

theorem IsLinked.insertAll?_eq (h : layout.IsLinked) (insertions : List (String × α)) :
    ∃ last, layout.insertAll? insertions = some last ∧ last.IsLinked ∧
      last.toRecord = layout.toRecord.insertAll insertions := by
  induction insertions generalizing layout with
  | nil => exact ⟨layout, rfl, h, rfl⟩
  | cons entry rest ih =>
      obtain ⟨key, value⟩ := entry
      obtain ⟨next, hnext, hlinked, hrecord⟩ := h.insert?_eq key value
      obtain ⟨last, hlast, hend, hrest⟩ := ih hlinked
      refine ⟨last, ?_, hend, ?_⟩
      · rw [insertAll?, hnext]
        exact hlast
      · rw [hrest, hrecord]
        rfl

theorem ofEntries?_eq (insertions : List (String × α)) :
    ∃ layout, ofEntries? insertions = some layout ∧ layout.IsLinked ∧
      layout.toRecord = Record.ofEntries insertions :=
  isLinked_empty.insertAll?_eq insertions

theorem insertAll?_concat (insertions : List (String × α)) (key : String) (value : α) :
    layout.insertAll? (insertions ++ [(key, value)]) =
      (layout.insertAll? insertions).bind fun last => (last.insert? key value).map (·.2) := by
  induction insertions generalizing layout with
  | nil =>
      cases hnext : layout.insert? key value <;> simp [insertAll?, hnext]
  | cons entry rest ih =>
      obtain ⟨name, first⟩ := entry
      rw [List.cons_append, insertAll?, insertAll?, Option.bind_assoc]
      exact congrArg _ (funext fun next => ih)

/-- After insertions one after the other into the empty record, each key stands
once, in the order in which the keys came first, and the index leads from each
key to its entry and from no other key anywhere. What is under a key is what it
was given last, and an insertion under it gives that back. The entries, inserted
again, are the entries that there are. No step panics. -/
theorem follows_insertions (insertions : List (String × α)) :
    ∃ layout : Layout α, ofEntries? insertions = some layout ∧
      layout.toRecord = Record.ofEntries insertions ∧
      layout.keys.Nodup ∧
      layout.keys = (insertions.map (·.1)).eraseDups ∧
      (∀ (key : String) (place : Nat),
        layout.index[key]? = some place ↔ layout.keys[place]? = some key) ∧
      (∀ key, layout.contains key = true ↔ key ∈ insertions.map (·.1)) ∧
      (∀ key, ∃ found, layout.get? key = some found ∧
        (Record.ofEntries insertions).get? key = found ∧ LastGiven insertions key found) ∧
      (∀ key value, ∃ found next, layout.insert? key value = some (found, next) ∧
        LastGiven insertions key found ∧ ofEntries? (insertions ++ [(key, value)]) = some next) ∧
      ∃ again, ofEntries? layout.entries = some again ∧ again.entries = layout.entries := by
  obtain ⟨layout, hlayout, hlinked, hrecord⟩ := ofEntries?_eq insertions
  have hkeys : layout.keys = (insertions.map (·.1)).eraseDups := by
    rw [← keys_ofEntries, ← hrecord]
    rfl
  have hlast (key : String) : LastGiven insertions key (layout.toRecord.get? key) := by
    rw [hrecord]
    exact lastGiven_get? insertions key
  refine ⟨layout, hlayout, hrecord, hlinked.nodup, hkeys, hlinked, fun key => ?_, fun key => ?_,
    fun key value => ?_, ?_⟩
  · rw [hlinked.contains_iff, hkeys, List.mem_eraseDups]
  · exact ⟨_, hlinked.get?_eq key, by rw [hrecord], hlast key⟩
  · obtain ⟨next, hnext, -, -⟩ := hlinked.insert?_eq key value
    refine ⟨_, next, hnext, hlast key, ?_⟩
    have hbefore : empty.insertAll? insertions = some layout := hlayout
    rw [ofEntries?, insertAll?_concat, hbefore, Option.bind_some, hnext, Option.map_some]
  · obtain ⟨again, hagain, -, hsame⟩ := ofEntries?_eq layout.entries
    rw [ofEntries_of_nodup hlinked.nodup] at hsame
    exact ⟨again, hagain, congrArg Record.entries hsame⟩

end Layout

end ConfigNotation.Record
