import ConfigNotation.Proofs.Eval.Flattening

/-!
The fields of classes with their inheritance resolved: each of them stands in a declaration.
So what holds of the fields that are declared holds of those of all classes.
-/

namespace ConfigNotation.ClassTable

variable {classes : ClassTable} {decl : ClassDecl}

/-- A field of a class is one of its own, or one of a class that was known
before it. -/
theorem mem_fields_of_resolve {cls : Class} (h : classes.resolve decl = .ok cls)
    {field : Field TypeExpr} (hfield : field ∈ cls.fields.values) :
    field ∈ decl.fields ∨ ∃ name parent, classes.get? name = some parent ∧
      field ∈ parent.fields.values := by
  rw [resolve] at h
  obtain ⟨base, hbase, h⟩ := bind_eq_ok.1 h
  obtain ⟨mixins, hmixins, h⟩ := bind_eq_ok.1 h
  cases h
  obtain ⟨entry, hentry, rfl⟩ := List.mem_map.1 hfield
  rcases Record.mem_insertAll hentry with hempty | hentry
  · cases hempty
  · rcases List.mem_append.1 hentry with hinherited | hown
    · obtain ⟨parent, hparent, hmember⟩ := List.mem_flatMap.1 hinherited
      obtain ⟨name, hname⟩ := stored_of_mem (mixins_eq_ok_iff.1 hmixins) (baseOf_eq_ok_iff.1 hbase)
        parent hparent
      exact .inr ⟨name, parent, hname, List.mem_map_of_mem (f := (·.2)) hmember⟩
    · obtain ⟨own, hmember, rfl⟩ := List.mem_map.1 hown
      exact .inl hmember

/-- All fields of the classes of a table, inherited ones as well, are of some
sort. -/
def FieldsAre (sort : Field TypeExpr → Prop) (classes : ClassTable) : Prop :=
  ∀ name cls, classes.get? name = some cls → ∀ field ∈ cls.fields.values, sort field

theorem FieldsAre.register {sort : Field TypeExpr → Prop} (h : classes.FieldsAre sort)
    (hdecl : ∀ field ∈ decl.fields, sort field) {more : ClassTable}
    (hmore : classes.register decl = .ok more) :
    more.FieldsAre sort := by
  obtain ⟨added, hadded, heq⟩ := bind_eq_ok.1 hmore
  cases heq
  intro name cls hcls field hfield
  rw [Record.get?_insert] at hcls
  split at hcls
  · cases hcls
    rcases mem_fields_of_resolve hadded hfield with hown | ⟨other, parent, hparent, hinherited⟩
    · exact hdecl field hown
    · exact h other parent hparent field hinherited
  · exact h name cls hcls field hfield

theorem FieldsAre.registerAll {sort : Field TypeExpr → Prop} (h : classes.FieldsAre sort)
    {decls : List ClassDecl} (hdecls : ∀ decl ∈ decls, ∀ field ∈ decl.fields, sort field)
    {more : ClassTable} (hmore : classes.registerAll decls = .ok more) :
    more.FieldsAre sort := by
  induction decls generalizing classes with
  | nil =>
      cases hmore
      exact h
  | cons decl rest ih =>
      obtain ⟨hdecl, hrest⟩ := List.forall_mem_cons.1 hdecls
      rw [registerAll_cons] at hmore
      cases hregister : classes.register decl with
      | error error =>
          rw [hregister] at hmore
          cases hmore
      | ok next =>
          rw [hregister] at hmore
          exact ih (h.register hdecl hregister) hrest hmore

end ConfigNotation.ClassTable
