import Mathlib.Data.List.Infix
import ConfigNotation.Eval.Class
import ConfigNotation.Proofs.Syntax.Takes
import ConfigNotation.Proofs.Value.Merge

/-!
How declarations become classes. A class takes the fields of the classes that are stored when
it is declared, and keeps them: a later declaration changes the entry of its own name, and one
that names an unknown class changes nothing.
-/

namespace ConfigNotation

/-- A class has each of its fields once, under the name of the field. -/
structure Class.WellFormed (cls : Class) : Prop where
  named : ∀ entry ∈ cls.fields.entries, entry.2.name = entry.1
  distinct : cls.fields.keys.Nodup

/-- Fields in the order in which their names come first, each as it is defined
last. -/
def Field.merged (fields : List (Field TypeExpr)) : List (Field TypeExpr) :=
  (fields.map (·.name)).eraseDups.filterMap fun name => fields.reverse.find? (·.name == name)

namespace Class.WellFormed

variable {cls : Class}

theorem keys_eq (h : cls.WellFormed) : cls.fields.keys = cls.fields.values.map (·.name) := by
  rw [Record.values, List.map_map]
  exact (List.map_congr_left h.named).symm

theorem names (h : cls.WellFormed) : (cls.fields.values.map (·.name)).Nodup := by
  rw [← h.keys_eq]
  exact h.distinct

theorem entries_eq (h : cls.WellFormed) :
    cls.fields.entries = cls.fields.values.map fun field => (field.name, field) := by
  rw [Record.values, List.map_map]
  conv_lhs => rw [← List.map_id cls.fields.entries]
  exact List.map_congr_left fun entry hentry => Prod.ext (h.named entry hentry).symm rfl

end Class.WellFormed

/-- Looking up a name among keyed fields finds the first field of that name. -/
theorem lookup_keyed (name : String) (fields : List (Field TypeExpr)) :
    Record.lookup name (fields.map fun field => (field.name, field)) =
      fields.find? (·.name == name) := by
  induction fields with
  | nil => rfl
  | cons field rest ih =>
      rw [List.map_cons, Record.lookup, ih, List.find?_cons]
      by_cases h : field.name = name
      · rw [if_pos h, beq_iff_eq.2 h]
      · rw [if_neg h, beq_eq_false_iff_ne.2 h]

/-- Inserting fields under their names one after the other gives the merged
fields: each in its first place, as it was defined last. -/
theorem values_merged (fields : List (Field TypeExpr)) :
    (Record.merged (fields.map fun field => (field.name, field))).values = Field.merged fields := by
  have hvalue (name : String) : ((fields.reverse.find? (·.name == name)).map (name, ·)).map (·.2) =
      fields.reverse.find? (·.name == name) := by
    rw [Option.map_map]
    exact Option.map_id'
  simp only [Record.merged, Record.values, Field.merged, List.map_filterMap, ← List.map_reverse,
    lookup_keyed, List.map_map, Function.comp_def, hvalue]

namespace ClassTable

def WellFormed (classes : ClassTable) : Prop :=
  ∀ name cls, classes.get? name = some cls → cls.WellFormed

theorem WellFormed.empty : WellFormed .empty := nofun

/-- The class that a declaration makes of the classes that are stored before it:
the fields are those of the mixins in order, of the base, and its own. -/
inductive Flattens (classes : ClassTable) (decl : ClassDecl) (cls : Class) : Prop where
  | intro {mixins : List Class} {base : Option Class}
      (hmixins : decl.mixins.map classes.get? = mixins.map some)
      (hbase : decl.base.map classes.get? = base.map some)
      (hname : cls.name = decl.name)
      (hparameters : cls.parameters =
        if decl.parameters = [] then (base.map (·.parameters)).getD [] else decl.parameters)
      (hfields : cls.fields.values =
        Field.merged ((mixins ++ base.toList).flatMap (·.fields.values) ++ decl.fields))

/-- A declaration that names an unknown class; the base is looked up first. -/
inductive Refuses (classes : ClassTable) (decl : ClassDecl) : EvalError → Prop where
  | base {name : String} (hbase : decl.base = some name) (hunknown : classes.get? name = none) :
      Refuses classes decl (.raise (.unknownBase name))
  | mixin {before after : List String} {name : String}
      (hbase : ∀ base ∈ decl.base, (classes.get? base).isSome)
      (hmixins : decl.mixins = before ++ name :: after)
      (hbefore : ∀ mixin ∈ before, (classes.get? mixin).isSome)
      (hunknown : classes.get? name = none) :
      Refuses classes decl (.raise (.unknownMixin name))

variable {classes : ClassTable} {decl : ClassDecl}

theorem baseOf_eq_ok_iff {base : Option Class} :
    classes.baseOf decl = .ok base ↔ decl.base.map classes.get? = base.map some := by
  rw [baseOf]
  cases decl.base with
  | none => cases base <;> simp
  | some name =>
      dsimp only
      cases hfound : classes.get? name <;> cases base <;> simp [hfound]

/-- A declaration finds its base exactly if it names none or one that is
known. -/
theorem exists_baseOf_iff :
    (∃ base, classes.baseOf decl = .ok base) ↔
      ∀ name ∈ decl.base, (classes.get? name).isSome := by
  rw [baseOf]
  cases decl.base with
  | none => simp
  | some name =>
      dsimp only
      cases hfound : classes.get? name <;> simp [hfound]

theorem baseOf_eq_error_iff {error : EvalError} :
    classes.baseOf decl = .error error ↔ ∃ name, decl.base = some name ∧
      classes.get? name = none ∧ error = .raise (.unknownBase name) := by
  rw [baseOf]
  cases decl.base with
  | none => simp
  | some name =>
      dsimp only
      cases hfound : classes.get? name <;> simp [hfound, eq_comm]

theorem mixin_eq_ok_iff {name : String} {cls : Class} :
    classes.mixin name = .ok cls ↔ classes.get? name = some cls := by
  rw [mixin]
  cases classes.get? name <;> simp

theorem mixins_eq_ok_iff {names : List String} {mixins : List Class} :
    names.mapM classes.mixin = .ok mixins ↔ names.map classes.get? = mixins.map some := by
  induction names generalizing mixins with
  | nil => cases mixins <;> simp [pure, Except.pure]
  | cons name rest ih =>
      simp only [List.mapM_cons, bind_eq_ok, mixin_eq_ok_iff, ih, List.map_cons]
      constructor
      · rintro ⟨first, hfirst, others, hothers, ⟨⟩⟩
        rw [hfirst, hothers, List.map_cons]
      · intro h
        cases mixins with
        | nil => cases h
        | cons first others =>
            obtain ⟨hfirst, hothers⟩ := List.cons.inj h
            exact ⟨first, hfirst, others, hothers, rfl⟩

theorem mixin_eq_error_iff {name : String} {error : EvalError} :
    classes.mixin name = .error error ↔
      classes.get? name = none ∧ error = .raise (.unknownMixin name) := by
  rw [mixin]
  cases classes.get? name <;> simp [eq_comm]

/-- The mixins fail at the first one that is unknown, those in front of it being
known. -/
theorem mixins_eq_error_iff {names : List String} {error : EvalError} :
    names.mapM classes.mixin = .error error ↔ ∃ before name after,
      names = before ++ name :: after ∧ (∀ mixin ∈ before, (classes.get? mixin).isSome) ∧
      classes.get? name = none ∧ error = .raise (.unknownMixin name) := by
  induction names with
  | nil => simp [pure, Except.pure]
  | cons name rest ih =>
      rw [List.mapM_cons]
      constructor
      · intro h
        rcases bind_eq_error.1 h with hfirst | ⟨cls, hfirst, h⟩
        · obtain ⟨hunknown, rfl⟩ := mixin_eq_error_iff.1 hfirst
          exact ⟨[], name, rest, rfl, nofun, hunknown, rfl⟩
        · rcases bind_eq_error.1 h with hrest | ⟨others, -, hnone⟩
          · obtain ⟨before, other, after, rfl, hbefore, hunknown, rfl⟩ := ih.1 hrest
            have hknown := Option.isSome_of_eq_some (mixin_eq_ok_iff.1 hfirst)
            exact ⟨name :: before, other, after, rfl,
              List.forall_mem_cons.2 ⟨hknown, hbefore⟩, hunknown, rfl⟩
          · cases hnone
      · rintro ⟨_ | ⟨first, before⟩, other, after, hnames, hbefore, hunknown, rfl⟩
        · cases hnames
          exact bind_eq_error.2 (.inl (mixin_eq_error_iff.2 ⟨hunknown, rfl⟩))
        · cases hnames
          obtain ⟨hknown, hbefore⟩ := List.forall_mem_cons.1 hbefore
          obtain ⟨cls, hcls⟩ := Option.isSome_iff_exists.1 hknown
          have hrest := ih.2 ⟨before, other, after, rfl, hbefore, hunknown, rfl⟩
          exact bind_eq_error.2 (.inr ⟨cls, mixin_eq_ok_iff.2 hcls, bind_eq_error.2 (.inl hrest)⟩)

/-- The classes that a declaration takes fields from are stored. -/
theorem stored_of_mem {mixins : List Class} {base : Option Class}
    (hmixins : decl.mixins.map classes.get? = mixins.map some)
    (hbase : decl.base.map classes.get? = base.map some) :
    ∀ parent ∈ mixins ++ base.toList, ∃ name, classes.get? name = some parent := by
  intro parent hparent
  rcases List.mem_append.1 hparent with hmixin | hbased
  · have hmember := List.mem_map_of_mem (f := some) hmixin
    rw [← hmixins] at hmember
    obtain ⟨name, -, hname⟩ := List.mem_map.1 hmember
    exact ⟨name, hname⟩
  · obtain rfl : base = some parent := Option.mem_toList.1 hbased
    obtain ⟨name, -, hname⟩ := Option.map_eq_some_iff.1 hbase
    exact ⟨name, hname⟩

/-- A declaration that is resolved gives a class that is well formed and has the
fields of its flattening, in order. -/
theorem resolve_eq_ok {cls : Class} (hclasses : classes.WellFormed)
    (h : classes.resolve decl = .ok cls) : cls.WellFormed ∧ Flattens classes decl cls := by
  obtain ⟨base, hbase, h⟩ := bind_eq_ok.1 h
  obtain ⟨mixins, hmixins, h⟩ := bind_eq_ok.1 h
  rw [baseOf_eq_ok_iff] at hbase
  rw [mixins_eq_ok_iff] at hmixins
  cases h
  have hinherited : (mixins ++ base.toList).flatMap (·.fields.entries) =
      ((mixins ++ base.toList).flatMap (·.fields.values)).map fun field => (field.name, field) := by
    rw [List.map_flatMap]
    refine List.flatMap_congr fun parent hparent => ?_
    obtain ⟨name, hname⟩ := stored_of_mem hmixins hbase parent hparent
    exact (hclasses name parent hname).entries_eq
  rw [hinherited, ← List.map_append]
  constructor
  · constructor
    · intro entry hentry
      rcases Record.mem_insertAll hentry with hempty | hentry
      · cases hempty
      · obtain ⟨field, -, rfl⟩ := List.mem_map.1 hentry
        rfl
    · have hempty : (Record.empty : Record (Field TypeExpr)).keys.Nodup := List.nodup_nil
      exact Record.nodup_keys_insertAll hempty _
  · refine .intro hmixins hbase rfl ?_ ?_
    · simp only [List.isEmpty_iff]
    · rw [Record.ofEntries_eq_merged]
      exact values_merged _

/-- A declaration is refused exactly for an unknown base or mixin, of which the
base is looked up first. -/
theorem resolve_eq_error_iff {error : EvalError} :
    classes.resolve decl = .error error ↔ Refuses classes decl error := by
  constructor
  · intro h
    rcases bind_eq_error.1 h with hbase | ⟨base, hbase, h⟩
    · obtain ⟨name, hname, hunknown, rfl⟩ := baseOf_eq_error_iff.1 hbase
      exact .base hname hunknown
    · rcases bind_eq_error.1 h with hmixins | ⟨mixins, -, hnone⟩
      · obtain ⟨before, name, after, hnames, hbefore, hunknown, rfl⟩ :=
          mixins_eq_error_iff.1 hmixins
        exact .mixin (exists_baseOf_iff.1 ⟨base, hbase⟩) hnames hbefore hunknown
      · cases hnone
  · rintro (⟨hbase, hunknown⟩ | ⟨hbase, hmixins, hbefore, hunknown⟩)
    · exact bind_eq_error.2 (.inl (baseOf_eq_error_iff.2 ⟨_, hbase, hunknown, rfl⟩))
    · have hrest := mixins_eq_error_iff.2 ⟨_, _, _, hmixins, hbefore, hunknown, rfl⟩
      obtain ⟨base, hbase⟩ := exists_baseOf_iff.2 hbase
      exact bind_eq_error.2 (.inr ⟨base, hbase, bind_eq_error.2 (.inl hrest)⟩)

/-- A registered declaration puts one class into the table, in the place of one
of the same name, and touches no other. -/
theorem register_eq_ok {more : ClassTable} (hclasses : classes.WellFormed)
    (h : classes.register decl = .ok more) :
    ∃ cls, cls.WellFormed ∧ Flattens classes decl cls ∧ more = classes.insert decl.name cls := by
  obtain ⟨cls, hcls, heq⟩ := bind_eq_ok.1 h
  cases heq
  obtain ⟨hwell, hflattens⟩ := resolve_eq_ok hclasses hcls
  exact ⟨cls, hwell, hflattens, rfl⟩

theorem register_eq_error_iff {error : EvalError} :
    classes.register decl = .error error ↔ Refuses classes decl error := by
  rw [← resolve_eq_error_iff, register, bind_eq_error]
  constructor
  · rintro (h | ⟨_, _, hnone⟩)
    · exact h
    · cases hnone
  · exact .inl

/-- Registers declarations one after the other, without those that fail. -/
def registerEach (classes : ClassTable) (decls : List ClassDecl) : ClassTable :=
  decls.foldl (fun classes decl => (classes.register decl).toOption.getD classes) classes

theorem registerEach_concat (decls : List ClassDecl) (decl : ClassDecl) :
    classes.registerEach (decls ++ [decl]) =
      ((classes.registerEach decls).register decl).toOption.getD (classes.registerEach decls) := by
  rw [registerEach, List.foldl_append]
  rfl

/-- Registering goes on behind a class that could be added, and stops at the
first one that could not. -/
theorem registerAll_cons (rest : List ClassDecl) :
    classes.registerAll (decl :: rest) =
      (classes.register decl).mapError (·.within decl.span) >>= (registerAll · rest) :=
  List.foldlM_cons

/-- Where no declaration fails, none is left out. -/
theorem registerEach_of_registerAll {decls : List ClassDecl} {more : ClassTable}
    (h : classes.registerAll decls = .ok more) : classes.registerEach decls = more := by
  induction decls generalizing classes with
  | nil =>
      cases h
      rfl
  | cons decl rest ih =>
      rw [registerAll_cons] at h
      obtain ⟨next, hnext, h⟩ := bind_eq_ok.1 h
      cases hregister : classes.register decl with
      | error error =>
          rw [hregister] at hnext
          cases hnext
      | ok found =>
          rw [hregister] at hnext
          cases hnext
          rw [registerEach, List.foldl_cons, hregister]
          exact ih h

/-- What one more declaration changes: the entry of its own name, or nothing. -/
theorem get?_registerEach_concat {decls : List ClassDecl} {decl : ClassDecl}
    (hclasses : (classes.registerEach decls).WellFormed) {name : String} {cls : Class}
    (h : (classes.registerEach (decls ++ [decl])).get? name = some cls) :
    (cls.WellFormed ∧ Flattens (classes.registerEach decls) decl cls ∧ decl.name = name) ∨
      (classes.registerEach decls).get? name = some cls := by
  rw [registerEach_concat] at h
  cases hregister : (classes.registerEach decls).register decl with
  | error error =>
      rw [hregister] at h
      exact .inr h
  | ok more =>
      rw [hregister] at h
      obtain ⟨added, hwell, hflattens, rfl⟩ := register_eq_ok hclasses hregister
      rw [Except.toOption, Option.getD, Record.get?_insert] at h
      split at h
      · next hname =>
        cases h
        exact .inl ⟨hwell, hflattens, hname.symm⟩
      · exact .inr h

theorem WellFormed.registerEach (hclasses : classes.WellFormed) (decls : List ClassDecl) :
    (classes.registerEach decls).WellFormed := by
  induction decls using List.reverseRecOn with
  | nil => exact hclasses
  | append_singleton decls decl ih =>
      intro name cls hcls
      rcases get?_registerEach_concat ih hcls with ⟨hwell, -, -⟩ | hbefore
      · exact hwell
      · exact ih name cls hbefore

/-- All classes stay well formed while a module adds its own. So every class
that evaluation meets is. -/
theorem WellFormed.registerAll (hclasses : classes.WellFormed) {decls : List ClassDecl}
    {more : ClassTable} (h : classes.registerAll decls = .ok more) :
    more.WellFormed := by
  rw [← registerEach_of_registerAll h]
  exact hclasses.registerEach decls

/-- A stored class was made by a declaration of its name, of the classes that
were stored before this, and has been stored ever since. -/
theorem exists_flattens {decls : List ClassDecl} {name : String} {cls : Class}
    (h : (registerEach .empty decls).get? name = some cls) :
    ∃ before decl after, decls = before ++ decl :: after ∧ decl.name = name ∧
      Flattens (registerEach .empty before) decl cls ∧
      ∀ middle, middle <+: after →
        (registerEach .empty (before ++ decl :: middle)).get? name = some cls := by
  induction decls using List.reverseRecOn with
  | nil => cases h
  | append_singleton decls last ih =>
      rcases get?_registerEach_concat (WellFormed.empty.registerEach decls) h with
        ⟨-, hflattens, hname⟩ | hbefore
      · refine ⟨decls, last, [], rfl, hname, hflattens, fun middle hmiddle => ?_⟩
        rwa [List.prefix_nil.1 hmiddle]
      · obtain ⟨before, decl, after, rfl, hname, hflattens, hstored⟩ := ih hbefore
        refine ⟨before, decl, after ++ [last], by rw [List.append_assoc, List.cons_append], hname,
          hflattens, fun middle hmiddle => ?_⟩
        rcases List.prefix_concat_iff.1 hmiddle with rfl | hmiddle
        · rwa [List.append_assoc, List.cons_append] at h
        · exact hstored middle hmiddle

/-- A class of a module is stored under its own name. -/
theorem name_of_registerAll {decls : List ClassDecl} {more : ClassTable}
    (hmore : registerAll .empty decls = .ok more) {name : String} {cls : Class}
    (h : more.get? name = some cls) : cls.name = name := by
  rw [← registerEach_of_registerAll hmore] at h
  obtain ⟨_, _, _, -, hdecl, ⟨_, _, hname, _, _⟩, -⟩ := exists_flattens h
  exact hname.trans hdecl

/-- A class that a history of declarations stores is made of the classes that
were stored before the last declaration of its name that did not fail. One more
declaration fails exactly if it names an unknown class, and then changes
nothing; else it changes the entry of its own name only. -/
theorem flattening_history (decls : List ClassDecl) :
    (∀ name cls, (registerEach .empty decls).get? name = some cls →
      (cls.fields.values.map (·.name)).Nodup ∧
      ∃ before decl after, decls = before ++ decl :: after ∧ decl.name = name ∧
        Flattens (registerEach .empty before) decl cls ∧
        ∀ middle, middle <+: after →
          (registerEach .empty (before ++ decl :: middle)).get? name = some cls) ∧
    ∀ decl,
      (∀ error, (registerEach .empty decls).register decl = .error error ↔
        Refuses (registerEach .empty decls) decl error) ∧
      (∀ error, (registerEach .empty decls).register decl = .error error →
        registerEach .empty (decls ++ [decl]) = registerEach .empty decls) ∧
      ∀ more, (registerEach .empty decls).register decl = .ok more →
        registerEach .empty (decls ++ [decl]) = more ∧
        (∃ cls, more.get? decl.name = some cls ∧
          Flattens (registerEach .empty decls) decl cls) ∧
        ∀ other, other ≠ decl.name →
          more.get? other = (registerEach .empty decls).get? other := by
  have hwell := WellFormed.empty.registerEach decls
  refine ⟨fun name cls hcls => ⟨(hwell name cls hcls).names, exists_flattens hcls⟩, ?_⟩
  intro decl
  refine ⟨fun error => register_eq_error_iff, fun error herror => ?_, fun more hmore => ?_⟩
  · rw [registerEach_concat, herror]
    rfl
  · obtain ⟨cls, -, hflattens, rfl⟩ := register_eq_ok hwell hmore
    refine ⟨?_, ⟨cls, ?_, hflattens⟩, fun other hother => ?_⟩
    · rw [registerEach_concat, hmore]
      rfl
    · rw [Record.get?_insert, if_pos rfl]
    · rw [Record.get?_insert, if_neg hother]

end ClassTable

end ConfigNotation
