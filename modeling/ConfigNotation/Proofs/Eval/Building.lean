import ConfigNotation.Proofs.Eval.Depth
import ConfigNotation.Proofs.Eval.Flattening

/-!
Instances that are built field by field, however the values of the fields are found. An
instance has the fields that got a value, in their order; the first field for which none is
found, or one that does not pass, gives the error.
-/

namespace ConfigNotation

namespace Class

open Evaluation

section

variable (chooses : Field TypeExpr → Except EvalError (Option Value) → Prop)
  (classes : ClassTable) (className : String)

/-- A field gets a value that passes its check, or is left out. -/
structure Gets (field : Field TypeExpr) (chosen : Option Value) : Prop where
  choice : chooses field (.ok chosen)
  check : ∀ value ∈ chosen,
    value.check classes field.type ⟨className, [.field field.name]⟩ = .ok ()

/-- No value is found for a field, or one that does not pass its check. -/
inductive Lacks (field : Field TypeExpr) : EvalError → Prop where
  | choice {error : EvalError} (h : chooses field (.error error)) : Lacks field error
  | check {value : Value} {error : EvalError} (h : chooses field (.ok (some value)))
      (hcheck : value.check classes field.type ⟨className, [.field field.name]⟩ = .error error) :
      Lacks field error

/-- The entries that some fields give to an instance, each that is not left out
in its turn. -/
inductive Builds : List (Field TypeExpr) → List (String × Value) → Prop where
  | nil : Builds [] []
  | kept {field : Field TypeExpr} {rest : List (Field TypeExpr)} {value : Value}
      {entries : List (String × Value)} (h : Gets chooses classes className field (some value))
      (hrest : Builds rest entries) : Builds (field :: rest) ((field.name, value) :: entries)
  | omitted {field : Field TypeExpr} {rest : List (Field TypeExpr)}
      {entries : List (String × Value)} (h : Gets chooses classes className field none)
      (hrest : Builds rest entries) : Builds (field :: rest) entries

/-- The first field that gets no value. -/
inductive BuildFails (fields : List (Field TypeExpr)) (error : EvalError) : Prop where
  | intro {before after : List (Field TypeExpr)} {field : Field TypeExpr}
      {entries : List (String × Value)} (hfields : fields = before ++ field :: after)
      (hbefore : Builds chooses classes className before entries)
      (hfield : Lacks chooses classes className field error)

end

variable {cls : Class} {classes : ClassTable} {choose : Field TypeExpr → Evaluation (Option Value)}
  {chooses : Field TypeExpr → Except EvalError (Option Value) → Prop}

/-- A field whose chosen value passes its check is put behind those before it. -/
theorem build_chosen {built : Record Value} {field : Field TypeExpr}
    {rest : List (Field TypeExpr)} {value : Value} (hchoose : choose field = pure (some value))
    (hcheck : value.check classes field.type ⟨cls.name, [.field field.name]⟩ = .ok ()) :
    cls.build classes choose built (field :: rest) =
      cls.build classes choose (built.insert field.name value) rest := by
  rw [build, hchoose, pure_bind]
  dsimp only
  rw [hcheck]
  exact pure_bind _ _

/-- What is built has names of fields only. -/
theorem Builds.keys_sublist {className : String} {fields : List (Field TypeExpr)}
    {entries : List (String × Value)} (h : Builds chooses classes className fields entries) :
    (entries.map (·.1)).Sublist (fields.map (·.name)) := by
  induction h with
  | nil => exact .slnil
  | kept _ _ ih => exact ih.cons_cons _
  | omitted _ _ ih => exact ih.cons _

/-- What is built has under the name of a field what the field gets. -/
theorem Builds.gets {className : String} {fields : List (Field TypeExpr)}
    {entries : List (String × Value)} (h : Builds chooses classes className fields entries)
    (hdistinct : (fields.map (·.name)).Nodup) {field : Field TypeExpr} (hfield : field ∈ fields) :
    Gets chooses classes className field (Record.lookup field.name entries) := by
  induction h with
  | nil => cases hfield
  | @kept first rest value entries hgets _ ih =>
      obtain ⟨hfirst, hrest⟩ := List.nodup_cons.1 hdistinct
      rcases List.mem_cons.1 hfield with rfl | hfield
      · rwa [Record.lookup, if_pos rfl]
      · rw [Record.lookup, if_neg]
        · exact ih hrest hfield
        · intro hsame
          exact hfirst (List.mem_map.2 ⟨field, hfield, hsame.symm⟩)
  | @omitted first rest entries hgets hbuilds ih =>
      obtain ⟨hfirst, hrest⟩ := List.nodup_cons.1 hdistinct
      rcases List.mem_cons.1 hfield with rfl | hfield
      · rwa [Record.lookup_eq_none_iff.2 fun hmem => hfirst (hbuilds.keys_sublist.subset hmem)]
      · exact ih hrest hfield

section

variable (hchooses : ∀ {field outcome}, (choose field).run = some outcome ↔ chooses field outcome)

include hchooses

/-- What building comes to at one field. -/
theorem build_cons_eq_some {built : Record Value} {field : Field TypeExpr}
    {rest : List (Field TypeExpr)} {outcome : Except EvalError (Record Value)} :
    (cls.build classes choose built (field :: rest)).run = some outcome ↔
      (∃ error, Lacks chooses classes cls.name field error ∧ outcome = .error error) ∨
      (∃ value, Gets chooses classes cls.name field (some value) ∧
        (cls.build classes choose (built.insert field.name value) rest).run = some outcome) ∨
      (Gets chooses classes cls.name field none ∧
        (cls.build classes choose built rest).run = some outcome) := by
  rw [build, run_bind_eq_some]
  constructor
  · rintro (⟨error, herror, rfl⟩ | ⟨_ | value, hchosen, hnext⟩)
    · exact .inl ⟨error, .choice (hchooses.1 herror), rfl⟩
    · exact .inr (.inr ⟨⟨hchooses.1 hchosen, nofun⟩, hnext⟩)
    · have hvalue := hchooses.1 hchosen
      rcases run_bind_eq_some.1 hnext with ⟨error, hcheck, rfl⟩ | ⟨_, hcheck, hrest⟩
      · exact .inl ⟨error, .check hvalue (Option.some.inj hcheck), rfl⟩
      · refine .inr (.inl ⟨value, ⟨hvalue, ?_⟩, hrest⟩)
        rintro _ ⟨⟩
        exact Option.some.inj hcheck
  · rintro (⟨error, herror, rfl⟩ | ⟨value, hgets, hrest⟩ | ⟨hgets, hrest⟩)
    · cases herror with
      | choice h => exact .inl ⟨error, hchooses.2 h, rfl⟩
      | check h hcheck =>
          refine .inr ⟨_, hchooses.2 h, run_bind_eq_some.2 (.inl ⟨error, ?_, rfl⟩)⟩
          exact congrArg some hcheck
    · refine .inr ⟨some value, hchooses.2 hgets.choice, run_bind_eq_some.2 (.inr ?_)⟩
      exact ⟨(), congrArg some (hgets.check value rfl), hrest⟩
    · exact .inr ⟨none, hchooses.2 hgets.choice, hrest⟩

/-- Fields with new names put their entries behind what is built before. -/
theorem build_eq_ok_iff {fields : List (Field TypeExpr)} {built record : Record Value}
    (hdistinct : (fields.map (·.name)).Nodup) (hnew : ∀ field ∈ fields, field.name ∉ built.keys) :
    (cls.build classes choose built fields).run = some (.ok record) ↔
      ∃ entries, Builds chooses classes cls.name fields entries ∧
        record = ⟨built.entries ++ entries⟩ := by
  induction fields generalizing built with
  | nil =>
      rw [build, run_pure_eq_ok]
      constructor
      · rintro rfl
        exact ⟨[], .nil, by rw [List.append_nil]⟩
      · rintro ⟨_, ⟨⟩, rfl⟩
        rw [List.append_nil]
  | cons field rest ih =>
      obtain ⟨hfirst, hrest⟩ := List.nodup_cons.1 hdistinct
      obtain ⟨hfield, hothers⟩ := List.forall_mem_cons.1 hnew
      -- The name is new, so that the insertion appends and the names behind it stay new.
      have hentries (value : Value) :
          (built.insert field.name value).entries = built.entries ++ [(field.name, value)] :=
        Record.put_of_not_mem hfield value
      have hinserted (value : Value) :
          ∀ other ∈ rest, other.name ∉ (built.insert field.name value).keys := by
        intro other hother
        rw [Record.keys, hentries, List.map_append, List.mem_append, not_or]
        refine ⟨hothers other hother, fun hsame => hfirst ?_⟩
        rw [← List.mem_singleton.1 hsame]
        exact List.mem_map_of_mem hother
      rw [build_cons_eq_some hchooses]
      constructor
      · rintro (⟨_, _, ⟨⟩⟩ | ⟨value, hgets, hbuild⟩ | ⟨hgets, hbuild⟩)
        · obtain ⟨entries, hbuilds, hrecord⟩ := (ih hrest (hinserted value)).1 hbuild
          rw [hentries, ← List.append_cons] at hrecord
          exact ⟨_, .kept hgets hbuilds, hrecord⟩
        · obtain ⟨entries, hbuilds, hrecord⟩ := (ih hrest hothers).1 hbuild
          exact ⟨entries, .omitted hgets hbuilds, hrecord⟩
      · rintro ⟨entries, hbuilds, hrecord⟩
        cases hbuilds with
        | kept hgets hbuilds =>
            refine .inr (.inl ⟨_, hgets, (ih hrest (hinserted _)).2 ⟨_, hbuilds, ?_⟩⟩)
            rwa [hentries, ← List.append_cons]
        | omitted hgets hbuilds =>
            exact .inr (.inr ⟨hgets, (ih hrest hothers).2 ⟨_, hbuilds, hrecord⟩⟩)

theorem build_eq_error_iff {fields : List (Field TypeExpr)} {built : Record Value}
    {error : EvalError} :
    (cls.build classes choose built fields).run = some (.error error) ↔
      BuildFails chooses classes cls.name fields error := by
  induction fields generalizing built with
  | nil =>
      refine iff_of_false nofun ?_
      rintro ⟨hfields, -, -⟩
      exact nomatch List.append_eq_nil_iff.1 hfields.symm
  | cons field rest ih =>
      rw [build_cons_eq_some hchooses]
      constructor
      · rintro (⟨_, hlacks, ⟨⟩⟩ | ⟨value, hgets, hbuild⟩ | ⟨hgets, hbuild⟩)
        · exact .intro (List.nil_append _).symm .nil hlacks
        · obtain ⟨hfields, hbefore, hfield⟩ := ih.1 hbuild
          exact .intro (congrArg (field :: ·) hfields) (.kept hgets hbefore) hfield
        · obtain ⟨hfields, hbefore, hfield⟩ := ih.1 hbuild
          exact .intro (congrArg (field :: ·) hfields) (.omitted hgets hbefore) hfield
      · rintro ⟨hfields, hbefore, hfield⟩
        cases hbefore with
        | nil =>
            cases hfields
            exact .inl ⟨error, hfield, rfl⟩
        | kept hgets hbefore =>
            cases hfields
            exact .inr (.inl ⟨_, hgets, ih.2 ⟨rfl, hbefore, hfield⟩⟩)
        | omitted hgets hbefore =>
            cases hfields
            exact .inr (.inr ⟨hgets, ih.2 ⟨rfl, hbefore, hfield⟩⟩)

end

/-- A class that is stored by the declarations of a module is built from
nothing. -/
theorem WellFormed.build_eq_ok_iff (hcls : cls.WellFormed)
    (hchooses : ∀ {field outcome}, (choose field).run = some outcome ↔ chooses field outcome)
    {record : Record Value} :
    (cls.build classes choose .empty cls.fields.values).run = some (.ok record) ↔
      Builds chooses classes cls.name cls.fields.values record.entries := by
  rw [Class.build_eq_ok_iff hchooses hcls.names fun _ _ => List.not_mem_nil]
  constructor
  · rintro ⟨entries, hbuilds, rfl⟩
    exact hbuilds
  · intro hbuilds
    exact ⟨record.entries, hbuilds, rfl⟩

end Class

end ConfigNotation
